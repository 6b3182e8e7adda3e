import Ptptl.Library.CInt
import Ptptl.Library.Search
import Ptptl.Ptp.Types

set_option autoImplicit false

namespace Ptp

def cString (buffer : Bytes) : Bytes := buffer.takeWhile fun char => char ≠ 0

theorem cString_clean (buffer : Bytes) : (0 : Byte) ∉ cString buffer := by
  intro member
  have all : ((cString buffer).all fun char => char ≠ 0) = true := List.all_takeWhile
  have nonzero := List.all_eq_true.1 all 0 member
  simp at nonzero

theorem cString_front (buffer : Bytes) : cString buffer <+: buffer := List.takeWhile_prefix _

theorem cString_length_le (buffer : Bytes) : (cString buffer).length ≤ buffer.length :=
  (cString_front buffer).length_le

theorem cString_append {front : Bytes} (clean : (0 : Byte) ∉ front) (back : Bytes) :
    cString (front ++ back) = front ++ cString back := by
  unfold cString
  apply List.takeWhile_append_of_pos
  intro char member
  exact decide_eq_true fun zero => clean (zero ▸ member)

theorem cString_eq {text : Bytes} (clean : (0 : Byte) ∉ text) : cString text = text := by
  simpa [cString] using cString_append clean []

theorem cString_ended {text : Bytes} (clean : (0 : Byte) ∉ text) (rest : Bytes) :
    cString (text ++ 0 :: rest) = text := by
  rw [cString_append clean]
  exact List.append_nil text

theorem cString_split {buffer : Bytes} (ended : 0 ∈ buffer) :
    ∃ rest, buffer = cString buffer ++ 0 :: rest := by
  obtain ⟨front, rest, split, clean⟩ := List.eq_append_cons_of_mem ended
  have same : cString buffer = front := by rw [split, cString_ended clean]
  exact ⟨rest, by rw [same]; exact split⟩

/-- A NUL-terminated string, without its NUL. -/
abbrev CString := { text : Bytes // (0 : Byte) ∉ text }

def CString.ofBuffer (buffer : Bytes) : CString := ⟨cString buffer, cString_clean buffer⟩

theorem CString.ofBuffer_val (text : CString) : CString.ofBuffer text.val = text :=
  Subtype.ext (cString_eq text.property)

def strstr (text pattern : Bytes) : Option Nat := Search.find pattern text

def isspace (char : Byte) : Bool := (9 ≤ char && char ≤ 13) || char == 32

def isdigit (char : Byte) : Bool := 48 ≤ char && char ≤ 57

def digitsValue (digits : Bytes) : Nat :=
  digits.foldl (fun value digit => 10 * value + (digit.toNat - 48)) 0

/-- `strtoul(text, NULL, 10)`, where `unsigned long` has `ulong` values. -/
def strtoul (ulong : Nat) (text : Bytes) : Nat :=
  let text := text.dropWhile isspace
  let (negative, text) :=
    match text with
    | 45 :: text => (true, text)
    | 43 :: text => (false, text)
    | text => (false, text)
  let value := digitsValue (text.takeWhile isdigit)
  if ulong ≤ value then ulong - 1
  else if negative then (ulong - value) % ulong
  else value

def hexDigit (char : Byte) : Option Nat :=
  if isdigit char then some (char.toNat - 48)
  else if 97 ≤ char && char ≤ 102 then some (char.toNat - 87)
  else if 65 ≤ char && char ≤ 70 then some (char.toNat - 55)
  else none

def isxdigit (char : Byte) : Bool := (hexDigit char).isSome

/-- The sign and digits that `strtoul(text, &end, 16)` takes, and what follows them. -/
def hexNumber (text : Bytes) : Bool × Bytes × Bytes :=
  let text := text.dropWhile isspace
  let (negative, text) :=
    match text with
    | 45 :: text => (true, text)
    | 43 :: text => (false, text)
    | text => (false, text)
  let text :=
    match text with
    | 48 :: x :: digit :: rest =>
      if (x = 120 ∨ x = 88) ∧ isxdigit digit then digit :: rest else text
    | text => text
  (negative, text.takeWhile isxdigit, text.dropWhile isxdigit)

def strtoulHex (ulong : Nat) (text : Bytes) : Nat :=
  let (negative, digits, _) := hexNumber text
  let value := (digits.filterMap hexDigit).foldl (fun value digit => 16 * value + digit) 0
  if ulong ≤ value then ulong - 1
  else if negative then (ulong - value) % ulong
  else value

/-- The text at the `end` of `strtoul(text, &end, 16)`. -/
def strtoulHexEnd (text : Bytes) : Bytes :=
  let (_, digits, rest) := hexNumber text
  if digits = [] then text else rest

/-- What follows the place that `strrchr` finds. -/
def afterLast (char : Byte) : Bytes → Option Bytes
  | [] => none
  | first :: rest =>
    match afterLast char rest with
    | some last => some last
    | none => if first = char then some rest else none

theorem afterLast_none {char : Byte} {text : Bytes} :
    afterLast char text = none ↔ char ∉ text := by
  induction text with
  | nil => simp [afterLast]
  | cons first rest ih =>
    cases found : afterLast char rest with
    | none =>
      simp only [afterLast, found, List.mem_cons, not_or, ih.1 found, not_false_eq_true, and_true]
      by_cases same : first = char
      · simp [same]
      · simp [same, Ne.symm same]
    | some last =>
      have inside : char ∈ rest := by
        by_contra absent
        rw [ih.2 absent] at found
        exact absurd found (by simp)
      simp [afterLast, found, inside]

theorem afterLast_some {char : Byte} {text last : Bytes}
    (found : afterLast char text = some last) : last <:+ text ∧ char ∉ last := by
  induction text with
  | nil => simp [afterLast] at found
  | cons first rest ih =>
    cases later : afterLast char rest with
    | some other =>
      simp only [afterLast, later, Option.some.injEq] at found
      subst found
      exact ⟨(ih later).1.trans (List.suffix_cons _ _), (ih later).2⟩
    | none =>
      simp only [afterLast, later] at found
      split at found
      · rw [Option.some.injEq] at found
        subst found
        exact ⟨List.suffix_cons _ _, afterLast_none.1 later⟩
      · simp at found

theorem afterLast_append (char : Byte) (front : Bytes) {tail : Bytes} (plain : char ∉ tail) :
    afterLast char (front ++ char :: tail) = some tail := by
  induction front with
  | nil => simp [afterLast, afterLast_none.2 plain]
  | cons first front ih => simp [afterLast, ih]

/-- `%u` and, for a value that is not negative, `%d`. -/
def decimal (value : Nat) : Bytes :=
  (Nat.toDigits 10 value).map fun digit => digit.toNat.toUInt8

def printInt (value : Int) : Bytes :=
  if value < 0 then ascii "-" ++ decimal value.natAbs else decimal value.natAbs

theorem digit_byte {digit : Char} (decimal : digit.isDigit = true) :
    digit.toNat.toUInt8.toNat = digit.toNat ∧ isdigit digit.toNat.toUInt8 = true := by
  have bounds := Char.isDigit_iff_toNat.1 decimal
  change 48 ≤ digit.toNat ∧ digit.toNat ≤ 57 at bounds
  have small : digit.toNat.toUInt8.toNat = digit.toNat := by
    rw [UInt8.toNat_ofNat']
    omega
  refine ⟨small, ?_⟩
  simp only [isdigit, Bool.and_eq_true, decide_eq_true_eq, UInt8.le_iff_toNat_le, small]
  exact bounds

theorem decimal_isdigit (value : Nat) : ∀ char ∈ decimal value, isdigit char = true := by
  intro char member
  obtain ⟨digit, digits, rfl⟩ := List.mem_map.1 member
  exact (digit_byte (Nat.isDigit_of_mem_toDigits (by decide) (by decide) digits)).2

theorem decimal_ne_nil (value : Nat) : decimal value ≠ [] := by
  simp [decimal, Nat.toDigits_ne_nil]

theorem digitsValue_decimal (value : Nat) : digitsValue (decimal value) = value := by
  have chars : ∀ digits : List Char, (∀ digit ∈ digits, digit.isDigit = true) → ∀ start,
      (digits.map fun digit => digit.toNat.toUInt8).foldl
        (fun value digit => 10 * value + (digit.toNat - 48)) start =
      Nat.ofDigitChars 10 digits start := by
    intro digits
    induction digits with
    | nil => intros; rfl
    | cons digit digits ih =>
      intro all start
      have same := (digit_byte (all digit List.mem_cons_self)).1
      rw [List.map_cons, List.foldl_cons, Nat.ofDigitChars_cons, same]
      exact ih (fun digit member => all digit (List.mem_cons_of_mem _ member)) _
  have printed := chars (Nat.toDigits 10 value)
    (fun _ member => Nat.isDigit_of_mem_toDigits (by decide) (by decide) member) 0
  rw [Nat.ofDigitChars_toDigits (by decide) (by decide)] at printed
  exact printed

theorem strtoul_skip (ulong : Nat) {char : Byte} (space : isspace char = true) (text : Bytes) :
    strtoul ulong (char :: text) = strtoul ulong text := by
  simp [strtoul, space]

theorem digit_plain {char : Byte} (digit : isdigit char = true) :
    isspace char = false ∧ char ≠ 45 ∧ char ≠ 43 := by
  simp only [isdigit, Bool.and_eq_true, decide_eq_true_eq, UInt8.le_iff_toNat_le] at digit
  change 48 ≤ char.toNat ∧ char.toNat ≤ 57 at digit
  refine ⟨?_, ?_, ?_⟩
  · have above : ¬ char ≤ 13 := by
      rw [UInt8.le_iff_toNat_le]
      change ¬ char.toNat ≤ 13
      omega
    have other : char ≠ 32 := by
      rintro rfl
      exact absurd digit.1 (by decide)
    simp [isspace, above, other]
  · rintro rfl
    exact absurd digit.1 (by decide)
  · rintro rfl
    exact absurd digit.1 (by decide)

theorem strtoul_digits {ulong : Nat} {digits rest : Bytes} (present : digits ≠ [])
    (all : ∀ char ∈ digits, isdigit char = true) (small : digitsValue digits < ulong)
    (ended : rest.takeWhile isdigit = []) :
    strtoul ulong (digits ++ rest) = digitsValue digits := by
  have taken : (digits ++ rest).takeWhile isdigit = digits := by
    rw [List.takeWhile_append_of_pos all, ended, List.append_nil]
  have large : ¬ ulong ≤ digitsValue digits := by omega
  cases digits with
  | nil => exact absurd rfl present
  | cons first others =>
    obtain ⟨plain, minus, plus⟩ := digit_plain (all first List.mem_cons_self)
    have kept : (first :: others ++ rest).dropWhile isspace = first :: others ++ rest := by
      simp [plain]
    simp only [strtoul, kept]
    split
    next text same =>
      simp only [List.cons_append, List.cons.injEq] at same
      exact absurd same.1 minus
    next text same =>
      simp only [List.cons_append, List.cons.injEq] at same
      exact absurd same.1 plus
    next =>
      simp only [taken, large, if_false, Bool.false_eq_true]

theorem strtoul_decimal {ulong value : Nat} (small : value < ulong) {rest : Bytes}
    (ended : rest.takeWhile isdigit = []) :
    strtoul ulong (decimal value ++ rest) = value := by
  have valued := digitsValue_decimal value
  rw [strtoul_digits (decimal_ne_nil value) (decimal_isdigit value) (by omega) ended, valued]

end Ptp
