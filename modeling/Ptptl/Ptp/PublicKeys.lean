import Mathlib.Data.Nat.Digits.Lemmas
import Ptptl.Library.Bounded
import Ptptl.Ptp.FindNext

set_option autoImplicit false

/-!
# Public keys in their buffers

`GetKey` as it stores the modulus, and the loops that compare what is in a buffer then.
-/

namespace Ptp

open Bounded

/-- `BN_bn2bin`: the bytes of a number, the highest first, without leading zeros. -/
def bn2bin (number : Nat) : Bytes := (Nat.digits 256 number).reverse.map Nat.toUInt8

theorem bn2bin_length (number : Nat) : (bn2bin number).length = (Nat.digits 256 number).length := by
  simp [bn2bin]

theorem bn2bin_inj {number other : Nat} : bn2bin number = bn2bin other ↔ number = other := by
  have digits (number : Nat) :
      (bn2bin number).map UInt8.toNat = (Nat.digits 256 number).reverse := by
    rw [bn2bin, List.map_map]
    refine (List.map_congr_left ?_).trans (List.map_id _)
    intro digit member
    have small : digit < 256 := Nat.digits_lt_base (by decide) (List.mem_reverse.1 member)
    exact UInt8.toNat_ofNat_of_lt small
  constructor
  next =>
    intro same
    have reversed := congrArg (List.map UInt8.toNat) same
    rw [digits, digits, List.reverse_inj] at reversed
    exact Nat.digits_inj_iff.1 reversed
  next =>
    intro same
    rw [same]

theorem bn2bin_sized (number : Nat) (size : Nat) :
    (bn2bin number).length = size + 1 ↔ 256 ^ size ≤ number ∧ number < 256 ^ (size + 1) := by
  rw [bn2bin_length, ← Nat.lt_digits_length_iff (by decide), ← Nat.digits_length_le_iff (by decide)]
  omega

namespace Store

variable {pki : Pki} (rsa : pki.PublicKey → Option Nat)

def modulusOf (cert : pki.Cert) : Option Nat := (pki.publicKey cert).bind rsa

/-- `GetKey` into a buffer: its result, and the buffer then. -/
def getKeyIn (cert : pki.Cert) (data : Bytes) : Except Fault (Int × Bytes) :=
  match modulusOf rsa cert with
  | none => .ok (-1, data)
  | some modulus => do
    let data ← store data (bn2bin modulus)
    return (publicKeySize, data)

def sameKeyIn (cert : pki.Cert) (modulus : Bytes) (mod : Block publicKeySize) :
    Except Fault Bool := do
  let (_, mod) ← getKeyIn rsa cert mod.val
  return mod = modulus

/-- The loop of `Remove`; `stack` is what each turn finds in its buffer. -/
def removeLoopIn (stack : Nat → Block publicKeySize) (pointer : Option Nat) (modulus : Bytes)
    (place : Nat) : List (Entry pki) → Except Fault (Option (List (Entry pki)))
  | [] => .ok none
  | entry :: rest =>
    match entry.payload.certified with
    | none => (removeLoopIn stack pointer modulus (place + 1) rest).map (Option.map (entry :: ·))
    | some ident =>
      if pointer = some place then .ok (some rest)
      else do
        if ← sameKeyIn rsa ident.cert modulus (stack place) then .ok (some rest)
        else (removeLoopIn stack pointer modulus (place + 1) rest).map (Option.map (entry :: ·))

/-- `Remove` of a certificate, with its place when it is one of the list. -/
def removeIn (list : List (Entry pki)) (cert : pki.Cert) (pointer : Option Nat)
    (first : Block publicKeySize) (stack : Nat → Block publicKeySize) :
    Except Fault (Int × List (Entry pki)) := do
  let (_, modulus) ← getKeyIn rsa cert first.val
  match ← removeLoopIn rsa stack pointer modulus 0 list with
  | none => return (-1, list)
  | some rest => return (0, rest)

def findKeyIn (stack : Nat → Block publicKeySize) (modulus : Bytes) (place : Nat) :
    List (Entry pki) → Except Fault (Option (Certified pki × Nat))
  | [] => .ok none
  | entry :: rest =>
    match entry.payload.certified with
    | none => findKeyIn stack modulus (place + 1) rest
    | some ident => do
      if ← sameKeyIn rsa ident.cert modulus (stack place) then .ok (some (ident, place))
      else findKeyIn stack modulus (place + 1) rest

/-- A place that is given for a certificate is one of an entry with it. -/
def Points (list : List (Entry pki)) (cert : pki.Cert) (pointer : Option Nat) : Prop :=
  ∀ place ∈ pointer, ∃ entry ident, list[place]? = some entry ∧
    entry.payload.certified = some ident ∧ ident.cert = cert

def holdsModulus (modulus : Option Nat) (entry : Entry pki) : Bool :=
  match entry.payload.certified with
  | none => false
  | some ident => modulusOf rsa ident.cert = modulus

/-- `GetKey` stores a whole key that its modulus alone determines. -/
def Determined (cert : pki.Cert) : Prop :=
  ∃ key : Block publicKeySize, ∀ data : Block publicKeySize,
    getKeyIn rsa cert data.val = .ok (publicKeySize, key.val)

structure ComparedByValue (cert : pki.Cert) (list : List (Entry pki)) : Prop where
  stores : Determined rsa cert ∧ ∀ ident ∈ idents list, Determined rsa ident.cert
  removes : ∀ pointer, Points list cert pointer → ∀ first stack,
    removeIn rsa list cert pointer first stack =
      .ok (if list.any (holdsModulus rsa (modulusOf rsa cert)) then
        (0, list.eraseP (holdsModulus rsa (modulusOf rsa cert))) else (-1, list))
  finds : ∀ (first : Block publicKeySize) (stack : Nat → Block publicKeySize),
    (getKeyIn rsa cert first.val).bind (fun key => findKeyIn rsa stack key.2 0 list) =
      .ok ((certificates list).find? fun found =>
        modulusOf rsa found.1.cert = modulusOf rsa cert)

def KeySized (cert : pki.Cert) : Prop :=
  ∃ modulus, modulusOf rsa cert = some modulus ∧ (bn2bin modulus).length = publicKeySize

section

variable {rsa}

theorem getKeyIn_sized {cert : pki.Cert} {modulus : Nat} (key : modulusOf rsa cert = some modulus)
    (sized : (bn2bin modulus).length = publicKeySize) (data : Block publicKeySize) :
    getKeyIn rsa cert data.val = .ok (publicKeySize, bn2bin modulus) := by
  have filled : data.val.length = publicKeySize := data.property
  have rest : data.val.drop (bn2bin modulus).length = [] :=
    List.drop_of_length_le (by omega)
  have stored : store data.val (bn2bin modulus) = .ok (bn2bin modulus) := by
    rw [store, if_pos (by omega), rest, List.append_nil]
  simp only [getKeyIn, key, stored]
  rfl

theorem getKeyIn_outside {cert : pki.Cert} {modulus : Nat} (key : modulusOf rsa cert = some modulus)
    (large : publicKeySize < (bn2bin modulus).length) (data : Block publicKeySize) :
    getKeyIn rsa cert data.val = .error .outside := by
  have filled : data.val.length = publicKeySize := data.property
  have overrun : store data.val (bn2bin modulus) = .error .outside := by
    rw [store, if_neg (by omega)]
  simp only [getKeyIn, key, overrun]
  rfl

theorem determined_iff (cert : pki.Cert) : Determined rsa cert ↔ KeySized rsa cert := by
  constructor
  next =>
    intro determined
    obtain ⟨key, all⟩ := determined
    cases modulus : modulusOf rsa cert with
    | none =>
      have absent := all (Block.zero publicKeySize)
      simp only [getKeyIn, modulus] at absent
      cases absent
    | some modulus' =>
      refine ⟨modulus', modulus, ?_⟩
      have stored (data : Block publicKeySize) :
          (store data.val (bn2bin modulus')).map (fun data => ((publicKeySize : Int), data)) =
            .ok ((publicKeySize : Int), key.val) := by
        rw [← all data]
        simp only [getKeyIn, modulus]
        cases store data.val (bn2bin modulus') <;> rfl
      by_cases fits : (bn2bin modulus').length ≤ publicKeySize
      next =>
        by_contra short
        have tail (byte : Byte) : bn2bin modulus' ++
            List.replicate (publicKeySize - (bn2bin modulus').length) byte = key.val := by
          have here := stored ⟨List.replicate publicKeySize byte, List.length_replicate⟩
          rw [store, if_pos (by rw [List.length_replicate]; exact fits), List.drop_replicate] at here
          exact congrArg Prod.snd (Except.ok.inj here)
        have same := List.append_cancel_left ((tail 0).trans (tail 1).symm)
        rw [List.replicate_inj] at same
        rcases same.2 with none | equal
        · omega
        · cases equal
      next =>
        have here := all (Block.zero publicKeySize)
        rw [getKeyIn_outside modulus (Nat.lt_of_not_le fits)] at here
        cases here
  next =>
    intro sized
    obtain ⟨modulus, key, filled⟩ := sized
    exact ⟨⟨bn2bin modulus, filled⟩, getKeyIn_sized key filled⟩

theorem sameKeyIn_sized {cert : pki.Cert} (sized : KeySized rsa cert) (modulus : Nat)
    (mod : Block publicKeySize) :
    sameKeyIn rsa cert (bn2bin modulus) mod =
      .ok (decide (modulusOf rsa cert = some modulus)) := by
  obtain ⟨other, key, filled⟩ := sized
  have equal : bn2bin other = bn2bin modulus ↔ modulusOf rsa cert = some modulus := by
    rw [key, Option.some.injEq, bn2bin_inj]
  simp only [sameKeyIn, getKeyIn_sized key filled, ← equal]
  rfl

theorem removeLoopIn_sized {list : List (Entry pki)} (sized : ∀ ident ∈ idents list,
    KeySized rsa ident.cert) (stack : Nat → Block publicKeySize) (modulus : Nat)
    {pointer : Option Nat} {place : Nat}
    (points : ∀ index entry ident, pointer = some (place + index) → list[index]? = some entry →
      entry.payload.certified = some ident → modulusOf rsa ident.cert = some modulus) :
    removeLoopIn rsa stack pointer (bn2bin modulus) place list =
      .ok (if list.any (holdsModulus rsa (some modulus)) then
        some (list.eraseP (holdsModulus rsa (some modulus))) else none) := by
  induction list generalizing place with
  | nil => rfl
  | cons entry rest ih =>
    have shifted : ∀ index other ident, pointer = some (place + 1 + index) →
        rest[index]? = some other → other.payload.certified = some ident →
          modulusOf rsa ident.cert = some modulus := by
      intro index other ident here found certified
      exact points (index + 1) other ident (by rw [here]; congr 1; omega) found certified
    rw [removeLoopIn]
    cases certified : entry.payload.certified with
    | none =>
      have other : holdsModulus rsa (some modulus) entry = false := by
        simp only [holdsModulus, certified]
      rw [idents_cons_none certified] at sized
      simp only [ih sized shifted, List.any_cons, other, Bool.false_or, List.eraseP_cons,
        Except.map]
      split <;> rfl
    | some ident =>
      have holds : holdsModulus rsa (some modulus) entry =
          decide (modulusOf rsa ident.cert = some modulus) := by
        simp only [holdsModulus, certified]
      rw [idents_cons_some certified, List.forall_mem_cons] at sized
      simp only
      split
      next here =>
        have same := points 0 entry ident here rfl certified
        simp [holds, same]
      next =>
        simp only [sameKeyIn_sized sized.1, bind, Except.bind, List.any_cons, holds,
          List.eraseP_cons]
        by_cases same : modulusOf rsa ident.cert = some modulus
        next => simp [same]
        next =>
          simp only [same, decide_false, Bool.false_eq_true, if_false, Bool.false_or,
            ih sized.2 shifted, Except.map]
          split <;> rfl

theorem findKeyIn_sized {list : List (Entry pki)} (sized : ∀ ident ∈ idents list,
    KeySized rsa ident.cert) (stack : Nat → Block publicKeySize) (modulus place : Nat) :
    findKeyIn rsa stack (bn2bin modulus) place list =
      .ok ((Cursor.accepted (fun entry => entry.payload.certified) place list).find?
        fun found => modulusOf rsa found.1.cert = some modulus) := by
  induction list generalizing place with
  | nil => rfl
  | cons entry rest ih =>
    rw [findKeyIn]
    cases certified : entry.payload.certified with
    | none =>
      rw [idents_cons_none certified] at sized
      rw [@Cursor.accepted_none _ _ (fun entry : Entry pki => entry.payload.certified) place entry rest
        certified]
      exact ih sized (place + 1)
    | some ident =>
      rw [idents_cons_some certified, List.forall_mem_cons] at sized
      rw [@Cursor.accepted_some _ _ (fun entry : Entry pki => entry.payload.certified) place entry rest
        ident certified, List.find?_cons]
      simp only [sameKeyIn_sized sized.1, bind, Except.bind]
      by_cases same : modulusOf rsa ident.cert = some modulus
      next => simp [same]
      next => simpa [same] using ih sized.2 (place + 1)

theorem comparedByValue_iff (cert : pki.Cert) (list : List (Entry pki)) :
    ComparedByValue rsa cert list ↔
      KeySized rsa cert ∧ ∀ ident ∈ idents list, KeySized rsa ident.cert := by
  constructor
  next =>
    intro compared
    refine ⟨(determined_iff cert).1 compared.stores.1, ?_⟩
    intro ident member
    exact (determined_iff ident.cert).1 (compared.stores.2 ident member)
  next =>
    rintro ⟨sized, all⟩
    have stores : Determined rsa cert ∧ ∀ ident ∈ idents list, Determined rsa ident.cert :=
      ⟨(determined_iff cert).2 sized,
        fun ident member => (determined_iff ident.cert).2 (all ident member)⟩
    obtain ⟨modulus, key, filled⟩ := sized
    constructor
    next => exact stores
    next =>
      intro pointer points first stack
      have pointed : ∀ index entry ident, pointer = some (0 + index) →
          list[index]? = some entry → entry.payload.certified = some ident →
            modulusOf rsa ident.cert = some modulus := by
        intro index entry ident here found certified
        rw [Nat.zero_add] at here
        obtain ⟨entry', ident', found', certified', same⟩ := points index here
        rw [found, Option.some.injEq] at found'
        rw [← found', certified, Option.some.injEq] at certified'
        rw [certified', same, key]
      simp only [removeIn, getKeyIn_sized key filled, removeLoopIn_sized all stack modulus pointed,
        bind, Except.bind, key]
      cases list.any (holdsModulus rsa (some modulus)) <;> rfl
    next =>
      intro first stack
      simp only [getKeyIn_sized key filled, Except.bind, findKeyIn_sized all stack modulus 0, key]
      rfl

end

/-- The blocks that stand for moduli elsewhere are what `GetKey` stores of them. -/
def Stored (rsa : pki.PublicKey → Option Nat) (names : Names pki) : Prop :=
  ∀ key modulus, rsa key = some modulus → (bn2bin modulus).length = publicKeySize →
    (names.modulus key).val = bn2bin modulus

theorem getKey_stored {rsa : pki.PublicKey → Option Nat} {names : Names pki}
    (stored : Stored rsa names) {cert : pki.Cert} (sized : KeySized rsa cert) :
    ∃ key, names.getKey cert = some key ∧ ∀ data : Block publicKeySize,
      getKeyIn rsa cert data.val = .ok (publicKeySize, key.val) := by
  obtain ⟨modulus, held, filled⟩ := sized
  have stores := getKeyIn_sized held filled
  obtain ⟨key, public', modulus'⟩ := Option.bind_eq_some_iff.1 held
  refine ⟨names.modulus key, by rw [Names.getKey, public', Option.map_some], ?_⟩
  rw [stored key modulus modulus' filled]
  exact stores

theorem findKeyIn_refines {rsa : pki.PublicKey → Option Nat} {names : Names pki}
    (stored : Stored rsa names) {list : List (Entry pki)}
    (sized : ∀ ident ∈ idents list, KeySized rsa ident.cert)
    (stack : Nat → Block publicKeySize) (modulus : Block publicKeySize) (place : Nat) :
    ∃ result, findFrom names none false (some modulus) place list = some result ∧
      findKeyIn rsa stack modulus.val place list = .ok (result.map Prod.swap) := by
  induction list generalizing place with
  | nil => exact ⟨none, rfl, rfl⟩
  | cons entry rest ih =>
    rw [findFrom, findKeyIn]
    cases certified : entry.payload.certified with
    | none =>
      rw [idents_cons_none certified] at sized
      exact ih sized (place + 1)
    | some ident =>
      rw [idents_cons_some certified, List.forall_mem_cons] at sized
      obtain ⟨key, held, stores⟩ := getKey_stored stored sized.1
      have compared : sameKeyIn rsa ident.cert modulus.val (stack place) =
          .ok (decide (key.val = modulus.val)) := by
        simp only [sameKeyIn, stores]
        rfl
      have equal : (key == modulus) = decide (key.val = modulus.val) := by
        rw [Bool.eq_iff_iff, beq_iff_eq, decide_eq_true_eq, Subtype.ext_iff]
      have matched : matchesIdent names none false (some modulus) ident =
          some (decide (key.val = modulus.val)) := by
        rw [← equal]
        simp [matchesIdent, held]
      simp only [compared, matched, bind, Except.bind, Option.bind_some]
      by_cases same : key.val = modulus.val
      next =>
        simp only [same, decide_true, if_true]
        exact ⟨_, rfl, rfl⟩
      next =>
        simp only [same, decide_false, Bool.false_eq_true, if_false]
        exact ih sized.2 (place + 1)

def largeModulus : Nat := 2 ^ 2047 + 1

/-- A modulus of 256 bytes is written past the end of the buffers. -/
theorem getKey_overrun : ¬ @ComparedByValue plainPki (fun _ => some largeModulus) () [] ∧
    @getKeyIn plainPki (fun _ => some largeModulus) () (Block.zero publicKeySize).val =
      .error .outside := by
  have length : (bn2bin largeModulus).length = 255 + 1 :=
    (bn2bin_sized largeModulus 255).2 (by decide +kernel)
  have large : publicKeySize < (bn2bin largeModulus).length := by
    rw [length]
    decide
  have overrun := @getKeyIn_outside plainPki (fun _ => some largeModulus) () largeModulus rfl large
    (Block.zero publicKeySize)
  constructor
  next =>
    intro compared
    obtain ⟨key, all⟩ := compared.stores.1
    cases overrun.symm.trans (all (Block.zero publicKeySize))
  next => exact overrun

end Store

end Ptp
