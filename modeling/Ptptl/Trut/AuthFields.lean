import Ptptl.Library.Bounded
import Ptptl.Library.Runs
import Ptptl.Ptp.EncodeCapacity
import Ptptl.Trut.AuthText
import Ptptl.Trut.SecureSearch

set_option autoImplicit false

/-! # Values of any size in the headers of the authentication -/

namespace Trut

open Ptp Ptp.Collection Ptp.Http CInt Search Memory

/-- The characters that `GetAuthValue` decodes: those of the alphabet behind the name, its colon and
the blanks. -/
def fieldText (hdr name : Bytes) : Option Bytes :=
  (findMarked colon name hdr).map fun rest => (rest.dropWhile isBlank).takeWhile isBase64

/-- `GetAuthValue` into the buffer `value`: its result, and the buffer. The size is not looked at. -/
def getAuthValueIn (hdr name value : Bytes) : Except Bounded.Fault (Int × Bytes) :=
  match fieldText hdr name with
  | none => .ok (-1, value)
  | some text => do
    let value ← Bounded.store value (Encoding.decodeBase64 text)
    return (0, value)

def Sized (hdr name : Bytes) (size : Nat) : Prop :=
  ∀ value : Block size, ∃ status out, getAuthValueIn hdr name value.val = .ok (status, out) ∧
    (status = 0 → ∃ text, fieldText hdr name = some text ∧
      (Encoding.decodeBase64 text).length = size)

variable {hdr name value : Bytes} {size : Nat}

theorem getAuthValue_refines {found : Option (Block size)}
    (read : getAuthValue hdr name size = some found) (value : Block size) :
    getAuthValueIn hdr name value.val =
      .ok (if found.isSome then 0 else -1, (found.getD value).val) := by
  have length : value.val.length = size := value.property
  unfold getAuthValue at read
  unfold getAuthValueIn fieldText
  cases marked : findMarked colon name hdr with
  | none =>
    rw [marked, Option.some.injEq] at read
    subst read
    rfl
  | some rest =>
    simp only [marked] at read
    split at read
    next fills =>
      rw [Option.some.injEq] at read
      subst read
      simp [Bounded.store, fills, length, bind, Except.bind, pure, Except.pure]
    next => simp at read

theorem isBase64_digit {char : Byte} (letter : isBase64 char = true) :
    (Encoding.decodeChar char).isSome = true := by
  have all : ∀ char ∈ Encoding.encodeTable, (Encoding.decodeChar char).isSome = true := by
    decide +kernel
  exact all char (List.contains_iff_mem.1 letter)

theorem decodeBase64_fieldText {text : Bytes} (found : fieldText hdr name = some text) :
    (Encoding.decodeBase64 text).length = 3 * text.length / 4 := by
  have all : ∀ char ∈ text, (Encoding.decodeChar char).isSome = true := by
    obtain ⟨rest, _, rfl⟩ := Option.map_eq_some_iff.1 found
    intro char member
    exact isBase64_digit (List.all_eq_true.1 List.all_takeWhile char member)
  have digits : Encoding.digits text = text.length := List.countP_eq_length.2 all
  have length := Encoding.decodeLoop_length text 0 0 (.inl rfl)
  rwa [digits, Nat.zero_div, Nat.add_zero] at length

/-- `GetAuthValue` keeps to the size that is expected exactly if there is no value, or one with as
many characters as make that size. -/
theorem sized_iff (hdr name : Bytes) (size : Nat) :
    Sized hdr name size ↔ ∀ text, fieldText hdr name = some text → 3 * text.length / 4 = size := by
  unfold Sized getAuthValueIn
  cases found : fieldText hdr name with
  | none => simp
  | some text =>
    have length := decodeBase64_fieldText found
    simp only [Option.some.injEq, forall_eq', exists_eq_left']
    constructor
    next =>
      intro sized
      obtain ⟨status, out, read, whole⟩ := sized (Block.zero size)
      simp only [Runs.bind_ok, Runs.pure_ok, Prod.mk.injEq] at read
      obtain ⟨_, _, rfl, _⟩ := read
      rw [← whole rfl, length]
    next =>
      intro whole value
      have fits : (Encoding.decodeBase64 text).length ≤ value.val.length := by
        rw [length, whole, value.property]
      have stored : Bounded.store value.val (Encoding.decodeBase64 text) = .ok _ := if_pos fits
      refine ⟨0, _, by rw [stored]; rfl, fun _ => by rw [length, whole]⟩

def shortIdentity : Bytes := ascii "Identity: AAAA\r\n"

theorem shortIdentity_text : fieldText shortIdentity identity = some (ascii "AAAA") := by
  decide +kernel

/-- Four characters are taken for a key of 128 bytes, and 400 are written behind its buffer. -/
theorem sized_wrong : ¬ Sized shortIdentity identity 128 ∧
    getAuthValueIn shortIdentity identity (List.replicate 128 7) =
      .ok (0, List.replicate 3 0 ++ List.replicate 125 7) ∧
    getAuthValueIn (ascii "Identity: " ++ List.replicate 400 65 ++ crlf) identity
      (List.replicate 128 7) = .error .outside := by
  refine ⟨?_, by decide +kernel, by decide +kernel⟩
  intro sized
  obtain ⟨status, out, read, whole⟩ := sized (Block.zero 128)
  simp only [getAuthValueIn, shortIdentity_text, Runs.bind_ok, Runs.pure_ok,
    Prod.mk.injEq] at read
  obtain ⟨_, _, rfl, _⟩ := read
  obtain ⟨text, found, length⟩ := whole rfl
  rw [shortIdentity_text, Option.some.injEq] at found
  subst found
  exact absurd length (by decide)

/-! # Fields read back -/

/-- The string that `EncodeBase64` leaves at the end of a header, apart from the value: on one
line. -/
def encodeField (value : Bytes) : Option Bytes := do
  let dst : Int := value.length
  let (_, out) ← Encoding.encodeBuffer (placed 0 value) (some 0) value.length (some dst) value.length
  let size ← Encoding.stringSize out.cells dst 2147483648
  return (List.range size.toNat).map fun index => out.cells (dst + (index : Nat))

/-- `AppendAuthValue`; its buffer is long enough. -/
def appendField (hdr : Bytes) (field : Bytes × Bytes) : Option Bytes := do
  let text ← encodeField field.2
  return hdr ++ (field.1 ++ ascii ": " ++ text ++ crlf)

theorem encodeField_correct (present : value ≠ []) (small : value.length < 1073741824) :
    encodeField value = some (valueText value) := by
  have some_ : 0 < value.length := List.length_pos_of_ne_nil present
  have line : (value.length - 1) / value.length = 0 := Nat.div_eq_of_lt (by omega)
  obtain ⟨text, encoded, clean, _, length⟩ := searchText_line present
  have total : Encoding.textSize value.length value.length = text.length := by
    rw [Encoding.textSize, line, length, Nat.add_zero]
  have both : ((2 * value.length : Nat) : Int) ≤ intMax ∧
      ((Encoding.textSize value.length value.length : Nat) : Int) ≤ intMax := by
    rw [total, length]
    unfold intMax
    omega
  obtain ⟨text', encoded', written⟩ := Encoding.encoded_written (placed 0 value) some_ some_
    (.inl (by omega : (0 : Int) ≤ value.length))
  rw [(placed_holds 0 value).backwards, List.reverse_reverse, encoded,
    Option.some.injEq] at encoded'
  subst encoded'
  have cursor := written.cursor
  rw [List.length_append, List.length_singleton, total] at cursor
  have bottom : (Encoding.encoded (placed 0 value) 0 value.length value.length value.length).d + 1 =
      value.length := by omega
  have holds := written.text
  rw [bottom] at holds
  have call := (Encoding.encodeBuffer_correct (placed 0 value) 0 value.length some_ some_).trans
    (if_pos both)
  have string := Encoding.stringSize_holds text holds clean
    (by rw [length]; omega : text.length < 2147483648)
  simp only [encodeField, call, string, Option.bind_eq_bind, Option.bind_some, Option.pure_def,
    Int.toNat_natCast, holds.range, valueText, encoded, Option.getD_some]

theorem encodeField_overflow (large : 1073741824 ≤ value.length) : encodeField value = none := by
  have call := Encoding.encodeBuffer_overflow (placed 0 value) 0 value.length
    (by omega : 0 < value.length) large
  simp only [encodeField, call, Option.bind_eq_bind, Option.bind_none]

theorem appendField_correct (hdr name : Bytes) (present : value ≠ [])
    (small : value.length < 1073741824) :
    appendField hdr (name, value) = some (appendAuthValue hdr name value) := by
  simp only [appendField, encodeField_correct present small, Option.bind_eq_bind, Option.bind_some,
    Option.pure_def, appendAuthValue, field]

def fieldsText (fields : List (Bytes × Bytes)) : Bytes :=
  fields.flatMap fun entry => field entry.1 entry.2 ++ crlf

theorem appendFields_correct {fields : List (Bytes × Bytes)}
    (present : ∀ entry ∈ fields, entry.2 ≠ []) (hdr : Bytes) {out : Bytes} :
    fields.foldlM appendField hdr = some out ↔
      (∀ entry ∈ fields, entry.2.length < 1073741824) ∧ out = hdr ++ fieldsText fields := by
  induction fields generalizing hdr with
  | nil => simp [fieldsText, eq_comm]
  | cons entry fields ih =>
    obtain ⟨name, value⟩ := entry
    have others := fun other member => present other (List.mem_cons_of_mem (name, value) member)
    by_cases small : value.length < 1073741824
    next =>
      have here := appendField_correct hdr name (present (name, value) List.mem_cons_self) small
      rw [List.foldlM_cons, here, Option.bind_eq_bind, Option.bind_some, ih others]
      simp [small, fieldsText, appendAuthValue, List.append_assoc]
    next =>
      have overflow := encodeField_overflow (Nat.not_lt.1 small)
      simp [appendField, overflow, small]

theorem clear_plain (plain : ¬ name ++ [colon] <:+: hdr) : Clear colon name [] hdr := by
  intro front back split ends
  obtain ⟨before, same⟩ := ends
  rw [List.nil_append] at same
  apply plain
  refine ⟨before, back, ?_⟩
  rw [split, ← same]
  simp

theorem clear_fields {fields : List (Bytes × Bytes)} (member : name ∈ fieldNames)
    (names : ∀ entry ∈ fields, entry.1 ∈ fieldNames) (other : name ∉ fields.map Prod.fst)
    (present : ∀ entry ∈ fields, entry.2 ≠ []) (before : Bytes) :
    Clear colon name before (fieldsText fields) := by
  have apart : ∀ first ∈ fieldNames, ∀ second ∈ fieldNames, first ≠ second →
      ¬ (first <:+ second ∨ second <:+ first) := by decide
  induction fields generalizing before with
  | nil => exact clear_of_not_mem (by simp [fieldsText])
  | cons entry fields ih =>
    obtain ⟨first, value⟩ := entry
    rw [List.map_cons, List.mem_cons, not_or] at other
    have first_ := names (first, value) List.mem_cons_self
    have unmarked := (unbordered_names first first_).2.2
    rw [fieldsText, List.flatMap_cons]
    apply Clear.append
    · exact clear_field (apart name member first first_ other.1) unmarked
        (present (first, value) List.mem_cons_self)
    · exact ih (fun entry member => names entry (List.mem_cons_of_mem _ member)) other.2
        (fun entry member => present entry (List.mem_cons_of_mem _ member)) _

theorem getAuthValueIn_fields {fields : List (Bytes × Bytes)}
    (plain : ∀ name ∈ fieldNames, ¬ name ++ [colon] <:+: hdr)
    (names : ∀ entry ∈ fields, entry.1 ∈ fieldNames) (distinct : (fields.map Prod.fst).Nodup)
    (present : ∀ entry ∈ fields, entry.2 ≠ []) {entry : Bytes × Bytes} (member : entry ∈ fields)
    (value : Block entry.2.length) :
    getAuthValueIn (hdr ++ fieldsText fields) entry.1 value.val = .ok (0, entry.2) := by
  have name := names entry member
  have some_ : 0 < entry.2.length := List.length_pos_of_ne_nil (present entry member)
  obtain ⟨before, after, rfl⟩ := List.append_of_mem member
  have other : entry.1 ∉ before.map Prod.fst := by
    rw [List.map_append, List.nodup_append] at distinct
    intro earlier
    exact distinct.2.2 _ earlier _ List.mem_cons_self rfl
  have clear : Clear colon entry.1 [] (hdr ++ fieldsText before) := by
    apply Clear.append (clear_plain (plain entry.1 name))
    apply clear_fields name _ other
    · exact fun entry member => present entry (List.mem_append_left _ member)
    · exact fun entry member => names entry (List.mem_append_left _ member)
  have found := getAuthValue_found name ⟨entry.2, rfl⟩ some_ clear (fieldsText after)
  have shape : hdr ++ fieldsText (before ++ entry :: after) =
      appendAuthValue (hdr ++ fieldsText before) entry.1 entry.2 ++ fieldsText after := by
    simp [fieldsText, appendAuthValue]
  rw [shape, getAuthValue_refines found value]
  rfl

theorem fields_read_iff (hdr : CString) (fields : List (Bytes × Bytes))
    (plain : ∀ name ∈ fieldNames, ¬ name ++ [colon] <:+: hdr.val)
    (names : ∀ entry ∈ fields, entry.1 ∈ fieldNames) (distinct : (fields.map Prod.fst).Nodup)
    (present : ∀ entry ∈ fields, entry.2 ≠ []) :
    (∃ out, fields.foldlM appendField hdr.val = some out ∧ ∀ entry ∈ fields,
        ∀ value : Block entry.2.length, getAuthValueIn out entry.1 value.val = .ok (0, entry.2)) ↔
      ∀ entry ∈ fields, entry.2.length < 1073741824 := by
  simp only [appendFields_correct present]
  constructor
  · rintro ⟨_, ⟨small, _⟩, _⟩
    exact small
  · intro small
    refine ⟨_, ⟨small, rfl⟩, ?_⟩
    intro entry member value
    exact getAuthValueIn_fields plain names distinct present member value

theorem fields_read_three :
    (∀ name ∈ fieldNames, ¬ name ++ [colon] <:+: ascii "GET /gets/a/0001 HTTP/1.0\r\n") ∧
      ((∃ out, [(response, [1, 2]), (identity, [3]), (challenge, [4])].foldlM appendField
          (ascii "GET /gets/a/0001 HTTP/1.0\r\n") = some out ∧
        ∀ entry ∈ [(response, [1, 2]), (identity, [3]), (challenge, [4])],
          ∀ value : Block entry.2.length, getAuthValueIn out entry.1 value.val = .ok (0, entry.2)) ↔
        ∀ entry ∈ [(response, [1, 2]), (identity, [3]), (challenge, ([4] : Bytes))],
          entry.2.length < 1073741824) := by
  have plain : ∀ name ∈ fieldNames,
      ¬ name ++ [colon] <:+: ascii "GET /gets/a/0001 HTTP/1.0\r\n" := by decide +kernel
  exact ⟨plain, fields_read_iff ⟨ascii "GET /gets/a/0001 HTTP/1.0\r\n", by decide⟩ _ plain
    (by decide) (by decide) (by decide)⟩

/-- A value of 2^30 bytes is not encoded. -/
theorem fields_read_overflow : ¬ ∀ (hdr : CString) (fields : List (Bytes × Bytes)),
    (∀ name ∈ fieldNames, ¬ name ++ [colon] <:+: hdr.val) →
    (∀ entry ∈ fields, entry.1 ∈ fieldNames) → (fields.map Prod.fst).Nodup →
    (∀ entry ∈ fields, entry.2 ≠ []) →
    ∃ out, fields.foldlM appendField hdr.val = some out ∧ ∀ entry ∈ fields,
      ∀ value : Block entry.2.length, getAuthValueIn out entry.1 value.val = .ok (0, entry.2) := by
  intro reads
  obtain ⟨value, length⟩ : ∃ value : Bytes, value.length = 1073741824 :=
    ⟨List.replicate _ 0, List.length_replicate⟩
  have present : value ≠ [] := List.ne_nil_of_length_pos (by omega)
  obtain ⟨out, appended, _⟩ := reads ⟨[], by simp⟩ [(identity, value)]
    (by decide) (by simp [fieldNames]) (by simp) (by simpa using present)
  have overflow := encodeField_overflow (Nat.le_of_eq length.symm)
  simp [appendField, overflow] at appended

end Trut
