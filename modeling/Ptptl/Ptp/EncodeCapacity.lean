import Ptptl.Ptp.EncodeBuffer

set_option autoImplicit false

/-! # The buffers that the documentation of base64 tells callers to allocate -/

namespace Ptp.Encoding

open CInt Memory

def Passed (cells : Int → Byte) (src : Int) (source : Bytes) (size : Int) : Prop :=
  size = source.length ∨
    size = -1 ∧ Holds cells src (source ++ [0]) ∧ (0 : Byte) ∉ source ∧ source.length ≤ intMax

/-- All that `EncodeBase64` stores lies in the `size * 2 + 4` bytes at `dst`. -/
def EncodeFits (cells : Int → Byte) (src : Int) (source : Bytes) (size dst bpl : Int) : Prop :=
  ∃ total out, encodeBuffer cells (some src) size (some dst) bpl = some (total, out) ∧
    ∀ position, .store position ∈ out.accesses →
      dst ≤ position ∧ position < dst + (source.length * 2 + 4 : Nat)

def DecodeFits (text : Bytes) : Prop := (decodeBase64 text).length ≤ text.length / 2

def digits (text : Bytes) : Nat := text.countP fun char => (decodeChar char).isSome

theorem encodeBuffer_passed {cells : Int → Byte} {src size : Int} {source : Bytes}
    (passed : Passed cells src source size) (dst bpl : Int) :
    encodeBuffer cells (some src) size (some dst) bpl =
      encodeBuffer cells (some src) source.length (some dst) bpl := by
  rcases passed with rfl | ⟨rfl, holds, clean, small⟩
  · rfl
  · have given : ¬ (source.length : Int) = -1 := by omega
    have length := stringSize_holds source holds clean
      (show source.length < 2147483648 by unfold intMax at small; omega)
    simp only [encodeBuffer, length, given, if_true, if_false, Option.bind_eq_bind,
      Option.bind_some]

theorem textSize_capacity {size bpl : Nat} (present : 0 < size) (positive : 0 < bpl) :
    textSize size bpl < size * 2 + 4 ↔ 2 ≤ bpl ∨ (size + 2) / 3 * 4 ≤ size + 4 := by
  by_cases wide : 2 ≤ bpl
  next =>
    have few : (size - 1) / bpl ≤ (size - 1) / 2 := Nat.div_le_div_left wide (by omega)
    unfold textSize
    omega
  next =>
    have one : bpl = 1 := by omega
    rw [one, textSize, Nat.div_one]
    omega

theorem encoded_range (cells : Int → Byte) (src dst : Int) {size bpl : Nat} (present : 0 < size)
    (positive : 0 < bpl) :
    .store (dst + textSize size bpl) ∈ (encoded cells src dst size bpl).accesses ∧
      ∀ position, .store position ∈ (encoded cells src dst size bpl).accesses →
        dst ≤ position ∧ position ≤ dst + textSize size bpl := by
  obtain ⟨stored, place⟩ := encoded_stored cells src dst present positive
  have lines := newlines_le positive present
  have long : (size - 1) / bpl + 4 ≤ textSize size bpl := by
    unfold textSize
    omega
  refine ⟨List.count_pos_iff.1 ?_, fun position member => ?_⟩
  · rw [stored.2, if_pos ⟨by omega, by omega⟩]
    exact Nat.one_pos
  · have counted := List.count_pos_iff.2 member
    rw [stored.2] at counted
    split at counted
    next inside => omega
    next => exact absurd counted (Nat.lt_irrefl 0)

theorem encodeFits_iff {cells : Int → Byte} {src size dst bpl : Int} {source : Bytes}
    (passed : Passed cells src source size) (accepted : 1 ≤ bpl) :
    EncodeFits cells src source size dst bpl ↔
      0 < source.length ∧ source.length < 1073741824 ∧
        (2 ≤ bpl ∨ (source.length + 2) / 3 * 4 ≤ source.length + 4) := by
  obtain ⟨bpl, rfl⟩ := Int.eq_ofNat_of_zero_le (by omega : 0 ≤ bpl)
  have positive : 0 < bpl := by omega
  unfold EncodeFits
  simp only [encodeBuffer_passed passed]
  constructor
  next =>
    rintro ⟨total, out, call, inside⟩
    have present : 0 < source.length := by
      by_contra empty
      have none : source.length = 0 := by omega
      simp [encodeBuffer, none, Nat.ne_of_gt positive] at call
    have small : source.length < 1073741824 := by
      by_contra large
      rw [encodeBuffer_overflow cells src dst positive (by omega)] at call
      exact absurd call (by simp)
    rw [encodeBuffer_correct cells src dst present positive] at call
    split at call
    next =>
      simp only [Option.some.injEq, Prod.mk.injEq] at call
      obtain ⟨rfl, rfl⟩ := call
      have last := (inside _ (encoded_range cells src dst present positive).1).2
      have capacity := (textSize_capacity present positive).1 (by omega)
      exact ⟨present, small, by omega⟩
    next => simp at call
  next =>
    rintro ⟨present, small, lines⟩
    have capacity := (textSize_capacity present positive).2 (by omega)
    have fits : ((2 * source.length : Nat) : Int) ≤ intMax ∧
        ((textSize source.length bpl : Nat) : Int) ≤ intMax := by
      by_cases wide : 2 ≤ bpl
      · exact (sizes_fit (.inl wide)).2 small
      · -- a few bytes only
        unfold intMax
        omega
    refine ⟨_, _, (encodeBuffer_correct cells src dst present positive).trans (if_pos fits),
      fun position member => ?_⟩
    have range := (encoded_range cells src dst present positive).2 position member
    omega

theorem digits_cons (char : Byte) (text : Bytes) :
    digits (char :: text) = digits text + if (decodeChar char).isSome then 1 else 0 :=
  List.countP_cons

theorem decodeLoop_digit {char : Byte} {value : Nat} (digit : decodeChar char = some value)
    (rest : Bytes) (prev : Nat) {bits : Nat} (phase : bits = 2 ∨ bits = 4 ∨ bits = 6) :
    (decodeLoop (char :: rest) prev bits).length = (decodeLoop rest value (bits - 2)).length + 1 := by
  rcases phase with rfl | rfl | rfl <;> simp [decodeLoop, digit]

/-- Of four characters with six bits each the first gives no byte; `bits` says how many of them
came before. -/
theorem decodeLoop_length (text : Bytes) : ∀ prev bits : Nat,
    bits = 0 ∨ bits = 2 ∨ bits = 4 ∨ bits = 6 →
    (decodeLoop text prev bits).length = (3 * digits text + bits / 2) / 4 := by
  induction text with
  | nil =>
    intro prev bits phase
    simp only [decodeLoop, digits, List.countP_nil, List.length_nil]
    omega
  | cons char rest ih =>
    intro prev bits phase
    rw [digits_cons]
    cases value : decodeChar char with
    | none =>
      rw [decodeLoop_skip value, ih prev bits phase]
      simp
    | some value' =>
      rcases phase with rfl | later
      · have first : decodeLoop (char :: rest) prev 0 = decodeLoop rest value' 6 := by
          simp [decodeLoop, value]
        rw [first, ih value' 6 (by omega), Option.isSome_some, if_pos rfl]
        omega
      · rw [decodeLoop_digit value rest prev later, ih value' (bits - 2) (by omega),
          Option.isSome_some, if_pos rfl]
        omega

theorem decodeFits_iff (text : Bytes) :
    DecodeFits text ↔ 3 * digits text / 4 ≤ text.length / 2 := by
  have length := decodeLoop_length text 0 0 (.inl rfl)
  rw [Nat.zero_div, Nat.add_zero] at length
  rw [DecodeFits, decodeBase64, length]

theorem capacities_suffice_iff {cells : Int → Byte} {src size dst bpl : Int} {source text : Bytes}
    (passed : Passed cells src source size) (accepted : 1 ≤ bpl) :
    (EncodeFits cells src source size dst bpl ↔
      0 < source.length ∧ source.length < 1073741824 ∧
        (2 ≤ bpl ∨ (source.length + 2) / 3 * 4 ≤ source.length + 4)) ∧
      (DecodeFits text ↔ 3 * digits text / 4 ≤ text.length / 2) :=
  ⟨encodeFits_iff passed accepted, decodeFits_iff text⟩

theorem capacities_suffice_four : Passed (fun _ => 7) 0 [7, 7, 7, 7] 4 ∧ 1 ≤ (36 : Int) ∧
    (EncodeFits (fun _ => 7) 0 [7, 7, 7, 7] 4 100 36 ↔ 0 < 4 ∧ 4 < 1073741824 ∧
      (2 ≤ (36 : Int) ∨ (4 + 2) / 3 * 4 ≤ 4 + 4)) ∧
    (DecodeFits (ascii "AAECAw==") ↔ 3 * 6 / 4 ≤ 8 / 2) :=
  ⟨.inl rfl, by decide, capacities_suffice_iff (.inl rfl) (by decide)⟩

theorem capacities_exceeded :
    (¬ ∀ (cells : Int → Byte) (src dst bpl : Int) (source : Bytes), 1 ≤ bpl →
      EncodeFits cells src source source.length dst bpl) ∧
    ¬ ∀ text, DecodeFits text := by
  refine ⟨fun fits => ?_, fun fits => ?_⟩
  · have lines := (encodeFits_iff (.inl rfl) (by decide)).1
      (fits (fun _ => 0) 0 100 1 (List.replicate 7 0) (by decide))
    exact absurd lines (by decide)
  · exact absurd ((decodeFits_iff _).1 (fits (ascii "AAEC"))) (by decide)

end Ptp.Encoding
