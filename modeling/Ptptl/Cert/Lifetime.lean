import Ptptl.Library.CInt
import Ptptl.Ptp.CString
import Ptptl.Ptp.Identity

set_option autoImplicit false

/-! # The lifetime that `--sign` gives -/

namespace Cert

open Ptp CInt

/-- What becomes of an `int` that leaves its range. -/
inductive Overflow where
  | undefined
  | wraps

def Overflow.int : Overflow → Int → Option Int
  | .undefined, value => checked value
  | .wraps, value => some (wrap value)

def expireDefault : Int := 30 * 24 * 60 * 60

/-- The argument of `--sign` in seconds, where `unsigned long` has 32 bits. -/
def signExpire (overflow : Overflow) (arg : CString) : Option Int := do
  let expire := wrap (strtoul 4294967296 arg.val)
  let expire ← overflow.int (expire * (24 * 60 * 60))
  some (if arg.val = [] then expireDefault else expire)

structure Validity where
  notBefore : Int
  notAfter : Int
deriving DecidableEq

/-- `X509_gmtime_adj`, with a `long` of 32 bits. -/
def gmtimeAdj (now : Int) (adj : Int) : Int := now + wrap adj

variable {pki : Pki}

def signCert (identity : Identity pki) (now : Int) (expire : Nat) : Int × Option Validity :=
  match identity.cert, identity.key with
  | some _, some _ => (0, some ⟨gmtimeAdj now 0, gmtimeAdj now expire⟩)
  | _, _ => (-1, none)

inductive Outcome where
  -- `Load` gives nothing
  | notLoaded
  -- "Cannot find local certificate."
  | noLocal
  | refused
  | signed (validity : Validity)
deriving DecidableEq

/-- `Sign`, where the `int` becomes an `unsigned`. -/
def sign (own : Option (Identity pki)) (now expire : Int) : Outcome :=
  match own with
  | none => .noLocal
  | some identity =>
    match signCert identity now (expire % 4294967296).toNat with
    | (0, some validity) => .signed validity
    | _ => .refused

def signCommand (overflow : Overflow) (own : Option (Identity pki)) (loaded : Bool) (now : Int)
    (arg : CString) : Option Outcome := do
  let expire ← signExpire overflow arg
  some (if loaded then sign own now expire else .notLoaded)

inductive Days : Bytes → Int → Prop where
  | digits {digits : Bytes} (present : digits ≠ []) (all : ∀ char ∈ digits, isdigit char = true) :
    Days digits (digitsValue digits)
  | plus {digits : Bytes} (present : digits ≠ []) (all : ∀ char ∈ digits, isdigit char = true) :
    Days (43 :: digits) (digitsValue digits)
  | minus {digits : Bytes} (present : digits ≠ []) (all : ∀ char ∈ digits, isdigit char = true) :
    Days (45 :: digits) (-(digitsValue digits : Int))
  | blank {char : Byte} {text : Bytes} {days : Int} (space : isspace char = true)
    (rest : Days text days) : Days (char :: text) days

def Lifetime (result : Option Outcome) (now days : Int) : Prop :=
  ∃ outcome, result = some outcome ∧ ∀ validity, outcome = .signed validity →
    validity.notAfter = now + days * 86400 ∧ now < validity.notAfter

/-- There is a certificate to sign, and one to sign it with. -/
def Signable (own : Option (Identity pki)) (loaded : Bool) : Prop :=
  loaded = true ∧ ∃ identity, own = some identity ∧ identity.cert.isSome ∧ identity.key.isSome

theorem Days.ne_nil {text : Bytes} {days : Int} (denotes : Days text days) : text ≠ [] := by
  cases denotes with
  | digits present _ => exact present
  | plus | minus | blank => exact List.cons_ne_nil _ _

theorem strtoul_signed {ulong : Nat} {digits : Bytes} (all : ∀ char ∈ digits, isdigit char = true)
    (small : digitsValue digits < ulong) :
    strtoul ulong (43 :: digits) = digitsValue digits ∧
      strtoul ulong (45 :: digits) = (ulong - digitsValue digits) % ulong := by
  have taken : digits.takeWhile isdigit = digits := by
    have whole : (digits ++ []).takeWhile isdigit = digits ++ [] :=
      List.takeWhile_append_of_pos all
    simpa using whole
  have plus : isspace 43 = false := by decide
  have minus : isspace 45 = false := by decide
  have large : ¬ ulong ≤ digitsValue digits := Nat.not_le.2 small
  constructor
  · simp [strtoul, plus, taken, large]
  · simp [strtoul, minus, taken, large]

theorem Days.strtoul {ulong : Nat} {text : Bytes} {days : Int} (denotes : Days text days)
    (small : days.natAbs < ulong) : (strtoul ulong text : Int) = days % ulong := by
  have positive {value : Nat} (below : value < ulong) : (value : Int) = (value : Int) % ulong := by
    rw [← Int.natCast_emod, Nat.mod_eq_of_lt below]
  induction denotes with
  | digits present all =>
    have read := @strtoul_digits ulong _ [] present all (by simpa using small) rfl
    rw [List.append_nil] at read
    rw [read]
    exact positive (by simpa using small)
  | plus present all =>
    rw [(strtoul_signed all (by simpa using small)).1]
    exact positive (by simpa using small)
  | @minus digits present all =>
    have below : digitsValue digits < ulong := by simpa using small
    rw [(strtoul_signed all below).2, Int.natCast_emod, Int.natCast_sub (Nat.le_of_lt below),
      Int.sub_eq_add_neg, Int.add_comm, Int.add_emod_right]
  | blank space _ ih => rw [strtoul_skip ulong space, ih small]

theorem signExpire_days (overflow : Overflow) {arg : CString} {days : Int}
    (denotes : Days arg.val days) (low : intMin ≤ days) (high : days ≤ intMax) :
    signExpire overflow arg = overflow.int (days * 86400) := by
  have small : days.natAbs < 4294967296 := by
    unfold intMin at low
    unfold intMax at high
    omega
  have read : wrap (Ptp.strtoul 4294967296 arg.val) = days := by
    rw [denotes.strtoul small, ← wrap_of_le low high]
    apply wrap_congr
    rw [wrap_of_le low high]
    exact Int.emod_emod_of_dvd _ (Int.dvd_refl _)
  have seconds : (24 * 60 * 60 : Int) = 86400 := rfl
  simp only [signExpire, read, denotes.ne_nil, if_false, seconds, Option.bind_eq_bind]
  cases overflow.int (days * 86400) <;> rfl

theorem gmtimeAdj_zero (now : Int) : gmtimeAdj now 0 = now := by
  rw [gmtimeAdj, wrap_of_le (by decide) (by decide), Int.add_zero]

theorem gmtimeAdj_unsigned (now expire : Int) :
    gmtimeAdj now (expire % 4294967296).toNat = now + wrap expire := by
  have positive : 0 ≤ expire % 4294967296 := Int.emod_nonneg _ (by decide)
  rw [gmtimeAdj, Int.toNat_of_nonneg positive]
  congr 1
  exact wrap_congr (Int.emod_emod_of_dvd _ (Int.dvd_refl _))

theorem sign_signed (own : Option (Identity pki)) (now expire : Int) (validity : Validity) :
    sign own now expire = .signed validity ↔
      Signable own true ∧ validity = ⟨now, now + wrap expire⟩ := by
  cases own with
  | none => simp [sign, Signable]
  | some identity =>
    cases cert : identity.cert with
    | none => simp [sign, signCert, Signable, cert]
    | some held =>
      cases key : identity.key with
      | none => simp [sign, signCert, Signable, cert, key]
      | some secret =>
        simp only [sign, signCert, cert, key, gmtimeAdj_zero, gmtimeAdj_unsigned,
          Outcome.signed.injEq, Signable, Option.some.injEq, exists_eq_left', Option.isSome_some,
          and_self, true_and]
        exact eq_comm

theorem wrap_self_iff (value : Int) : wrap value = value ↔ intMin ≤ value ∧ value ≤ intMax := by
  constructor
  · intro same
    rw [← same]
    exact ⟨wrap_ge value, wrap_le value⟩
  · exact fun within => wrap_of_le within.1 within.2

theorem validity_iff (now days : Int) :
    (now + wrap (days * 86400) = now + days * 86400 ∧ now < now + wrap (days * 86400)) ↔
      0 < days ∧ days ≤ 24855 := by
  have self := wrap_self_iff (days * 86400)
  unfold intMin intMax at self
  constructor
  · rintro ⟨same, later⟩
    have kept : wrap (days * 86400) = days * 86400 := by omega
    have within := self.1 kept
    omega
  · rintro ⟨positive, bound⟩
    have kept := self.2 (by omega)
    rw [kept]
    omega

theorem lifetime_of_seconds {overflow : Overflow} (own : Option (Identity pki)) (loaded : Bool)
    (now days : Int) {arg : CString} {seconds : Int} (expire : signExpire overflow arg = some seconds) :
    Lifetime (signCommand overflow own loaded now arg) now days ↔
      (Signable own loaded → now + wrap seconds = now + days * 86400 ∧ now < now + wrap seconds) := by
  have command : signCommand overflow own loaded now arg =
      some (if loaded then sign own now seconds else .notLoaded) := by
    rw [signCommand, expire]
    rfl
  rw [command]
  cases loaded with
  | false => simp [Lifetime, Signable]
  | true =>
    constructor
    · rintro ⟨outcome, same, proper⟩ signs
      obtain rfl := Option.some.inj same
      exact proper _ ((sign_signed own now seconds _).2 ⟨signs, rfl⟩)
    · intro proper
      refine ⟨_, rfl, fun validity signed => ?_⟩
      obtain ⟨signs, rfl⟩ := (sign_signed own now seconds validity).1 signed
      exact proper signs

theorem lifetime_iff (overflow : Overflow) (own : Option (Identity pki)) (loaded : Bool)
    (now : Int) {arg : CString} {days : Int} (denotes : Days arg.val days) (low : intMin ≤ days)
    (high : days ≤ intMax) :
    Lifetime (signCommand overflow own loaded now arg) now days ↔
      (overflow = .undefined → -24855 ≤ days ∧ days ≤ 24855) ∧
        (Signable own loaded → 0 < days ∧ days ≤ 24855) := by
  have expire := signExpire_days overflow denotes low high
  rw [← validity_iff now days]
  cases overflow with
  | undefined =>
    by_cases fits : -24855 ≤ days ∧ days ≤ 24855
    · have seconds : Overflow.int .undefined (days * 86400) = some (days * 86400) := by
        refine checked_eq_some.2 ⟨?_, rfl⟩
        unfold intMin intMax
        omega
      rw [lifetime_of_seconds own loaded now days (expire.trans seconds)]
      simp [fits]
    · have seconds : Overflow.int .undefined (days * 86400) = none := by
        refine checked_eq_none.2 ?_
        unfold intMin intMax
        omega
      have command : signCommand .undefined own loaded now arg = none := by
        rw [signCommand, expire, seconds]
        rfl
      simp [Lifetime, command, fits]
  | wraps =>
    have twice : wrap (wrap (days * 86400)) = wrap (days * 86400) := wrap_congr (wrap_emod _)
    rw [lifetime_of_seconds own loaded now days expire, twice]
    simp

def signer : Identity plainPki := ⟨some (), some ()⟩

def daysArg (text : String) : CString := CString.ofBuffer (ascii text)

theorem lifetime_iff_month :
    (Days (daysArg "30").val 30 ∧ intMin ≤ 30 ∧ 30 ≤ intMax) ∧
      (Lifetime (signCommand .wraps (some signer) true 1000000000 (daysArg "30")) 1000000000 30 ↔
        (Overflow.wraps = .undefined → -24855 ≤ (30 : Int) ∧ (30 : Int) ≤ 24855) ∧
          (Signable (some signer) true → 0 < (30 : Int) ∧ (30 : Int) ≤ 24855)) := by
  have denotes : Days (daysArg "30").val 30 :=
    @Days.digits (ascii "30") (by decide) (by decide +kernel)
  exact ⟨⟨denotes, by decide, by decide⟩,
    lifetime_iff .wraps (some signer) true 1000000000 denotes (by decide) (by decide)⟩

/-- 24856 days: undefined, or a certificate that expired 68 years ago. -/
theorem lifetime_lost :
    Days (daysArg "24856").val 24856 ∧
      signCommand .undefined (some signer) true 1000000000 (daysArg "24856") = none ∧
      signCommand .wraps (some signer) true 1000000000 (daysArg "24856") =
        some (.signed ⟨1000000000, 1000000000 - 2147408896⟩) ∧
      ∀ overflow, ¬ Lifetime (signCommand overflow (some signer) true 1000000000 (daysArg "24856"))
        1000000000 24856 := by
  have none_ : signCommand .undefined (some signer) true 1000000000 (daysArg "24856") = none := by
    decide +kernel
  have expired : signCommand .wraps (some signer) true 1000000000 (daysArg "24856") =
      some (.signed ⟨1000000000, 1000000000 - 2147408896⟩) := by decide +kernel
  refine ⟨@Days.digits (ascii "24856") (by decide) (by decide +kernel), none_, expired, ?_⟩
  rintro overflow ⟨outcome, result, proper⟩
  cases overflow with
  | undefined =>
    rw [none_] at result
    cases result
  | wraps =>
    obtain rfl := Option.some.inj (expired.symm.trans result)
    have later := (proper _ rfl).2
    simp only at later
    omega

end Cert
