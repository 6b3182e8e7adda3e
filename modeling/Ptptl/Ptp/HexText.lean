import Ptptl.Ptp.CString

set_option autoImplicit false

/-! # Numbers in hexadecimal -/

namespace Ptp

/-- `%lx`. -/
def hexText (value : Nat) : Bytes :=
  (Nat.toDigits 16 value).map fun digit => digit.toNat.toUInt8

/-- `%08lx`. -/
def hexPadded (value : Nat) : Bytes :=
  List.replicate (8 - (hexText value).length) 48 ++ hexText value

def hexValue (digits : Bytes) : Nat :=
  (digits.filterMap hexDigit).foldl (fun value digit => 16 * value + digit) 0

theorem hexDigit_digitChar : ∀ digit < 16,
    hexDigit (Nat.digitChar digit).toNat.toUInt8 = some digit := by
  decide

theorem hexText_eq (value : Nat) : hexText value =
    if value < 16 then [(Nat.digitChar value).toNat.toUInt8]
    else hexText (value / 16) ++ [(Nat.digitChar (value % 16)).toNat.toUInt8] := by
  unfold hexText
  rw [Nat.toDigits_eq_if (by decide)]
  split <;> simp

theorem hexValue_append (front : Bytes) {char : Byte} {digit : Nat}
    (last : hexDigit char = some digit) :
    hexValue (front ++ [char]) = 16 * hexValue front + digit := by
  simp [hexValue, last]

theorem hexValue_hexText (value : Nat) : hexValue (hexText value) = value := by
  induction value using Nat.strongRecOn with
  | ind value ih =>
    rw [hexText_eq]
    split
    next small => simp [hexValue, hexDigit_digitChar value small]
    next large =>
      rw [hexValue_append _ (hexDigit_digitChar _ (Nat.mod_lt _ (by decide))),
        ih (value / 16) (by omega)]
      exact Nat.div_add_mod value 16

theorem hexText_isxdigit (value : Nat) : ∀ char ∈ hexText value, isxdigit char = true := by
  induction value using Nat.strongRecOn with
  | ind value ih =>
    rw [hexText_eq]
    split
    next small =>
      intro char member
      rw [List.mem_singleton.1 member, isxdigit, hexDigit_digitChar value small]
      rfl
    next large =>
      intro char member
      rcases List.mem_append.1 member with member | member
      · exact ih (value / 16) (by omega) char member
      · rw [List.mem_singleton.1 member, isxdigit,
          hexDigit_digitChar _ (Nat.mod_lt _ (by decide))]
        rfl

theorem hexPadded_isxdigit (value : Nat) : ∀ char ∈ hexPadded value, isxdigit char = true := by
  intro char member
  rcases List.mem_append.1 member with member | member
  · rw [(List.mem_replicate.1 member).2]
    decide
  · exact hexText_isxdigit value char member

theorem hexPadded_length (value : Nat) : 8 ≤ (hexPadded value).length := by
  rw [hexPadded, List.length_append, List.length_replicate]
  omega

theorem hexValue_hexPadded (value : Nat) : hexValue (hexPadded value) = value := by
  have zeros (count : Nat) (digits : Bytes) :
      hexValue (List.replicate count 48 ++ digits) = hexValue digits := by
    induction count with
    | zero => rfl
    | succ count ih =>
      have zero : hexDigit 48 = some 0 := by decide
      rw [List.replicate_succ, List.cons_append, ← ih]
      simp [hexValue, zero]
  rw [hexPadded, zeros, hexValue_hexText]

theorem xdigit_low {char : Byte} (digit : isxdigit char = true) : 48 ≤ char := by
  simp only [isxdigit, hexDigit] at digit
  split at digit
  next decimal =>
    simp only [isdigit, Bool.and_eq_true, decide_eq_true_eq] at decimal
    exact decimal.1
  next =>
    split at digit
    next lower =>
      simp only [Bool.and_eq_true, decide_eq_true_eq] at lower
      exact UInt8.le_trans (by decide) lower.1
    next =>
      split at digit
      next upper =>
        simp only [Bool.and_eq_true, decide_eq_true_eq] at upper
        exact UInt8.le_trans (by decide) upper.1
      next => simp at digit

theorem xdigit_plain {char : Byte} (digit : isxdigit char = true) :
    isspace char = false ∧ char ≠ 45 ∧ char ≠ 43 ∧ ¬ (char = 120 ∨ char = 88) := by
  have low := UInt8.le_iff_toNat_le.1 (xdigit_low digit)
  change 48 ≤ char.toNat at low
  refine ⟨?_, ?_, ?_, ?_⟩
  · have above : ¬ char ≤ 13 := by
      rw [UInt8.le_iff_toNat_le]
      change ¬ char.toNat ≤ 13
      omega
    have other : char ≠ 32 := by
      rintro rfl
      exact absurd low (by decide)
    simp [isspace, above, other]
  · rintro rfl
    exact absurd digit (by decide)
  · rintro rfl
    exact absurd digit (by decide)
  · rintro (rfl | rfl) <;> exact absurd digit (by decide)

theorem hexNumber_digits {digits rest : Bytes} (all : ∀ char ∈ digits, isxdigit char = true)
    (several : 2 ≤ digits.length) (ended : rest.takeWhile isxdigit = []) :
    hexNumber (digits ++ rest) = (false, digits, rest) := by
  have taken : (digits ++ rest).takeWhile isxdigit = digits := by
    rw [List.takeWhile_append_of_pos all, ended, List.append_nil]
  have dropped : (digits ++ rest).dropWhile isxdigit = rest := by
    have whole : (digits ++ rest).takeWhile isxdigit ++ (digits ++ rest).dropWhile isxdigit =
        digits ++ rest := List.takeWhile_append_dropWhile
    rw [taken] at whole
    exact List.append_cancel_left whole
  match digits, several with
  | first :: second :: others, _ =>
    have one := xdigit_plain (all first (by simp))
    have two := xdigit_plain (all second (by simp))
    have kept : (first :: second :: others ++ rest).dropWhile isspace =
        first :: second :: others ++ rest := by
      simp [one.1]
    simp only [hexNumber, kept]
    split
    next text same => exact absurd (List.cons.inj same).1 one.2.1
    next text same => exact absurd (List.cons.inj same).1 one.2.2.1
    next =>
      simp only
      split
      next x digit others' same =>
        have equal : second = x := (List.cons.inj (List.cons.inj same).2).1
        have unmarked : ¬ ((x = 120 ∨ x = 88) ∧ isxdigit digit = true) :=
          fun marked => two.2.2.2 (equal ▸ marked.1)
        rw [if_neg unmarked, taken, dropped]
      next => rw [taken, dropped]

theorem strtoulHex_digits {ulong : Nat} {digits rest : Bytes}
    (all : ∀ char ∈ digits, isxdigit char = true) (several : 2 ≤ digits.length)
    (ended : rest.takeWhile isxdigit = []) (small : hexValue digits < ulong) :
    strtoulHex ulong (digits ++ rest) = hexValue digits ∧ strtoulHexEnd (digits ++ rest) = rest := by
  have large : ¬ ulong ≤ hexValue digits := by omega
  have present : digits ≠ [] := List.ne_nil_of_length_pos (by omega)
  unfold hexValue at *
  refine ⟨?_, ?_⟩
  · simp only [strtoulHex, hexNumber_digits all several ended, large, if_false, Bool.false_eq_true]
  · simp only [strtoulHexEnd, hexNumber_digits all several ended, present, if_false]

theorem strtoulHex_hexPadded {ulong value : Nat} (small : value < ulong) {rest : Bytes}
    (ended : rest.takeWhile isxdigit = []) :
    strtoulHex ulong (hexPadded value ++ rest) = value ∧
      strtoulHexEnd (hexPadded value ++ rest) = rest := by
  have several := hexPadded_length value
  have valued := hexValue_hexPadded value
  have read := strtoulHex_digits (hexPadded_isxdigit value) (by omega) ended
    (by rw [valued]; exact small : hexValue (hexPadded value) < ulong)
  rwa [valued] at read

end Ptp
