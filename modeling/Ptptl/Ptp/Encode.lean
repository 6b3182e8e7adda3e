import Ptptl.Ptp.Types

set_option autoImplicit false

/-! # Base64 -/

namespace Ptp.Encoding

def encodeTable : Bytes :=
  ascii "ABCDEFGHIJKLMNOPQRSTUVWXYZ" ++ ascii "abcdefghijklmnopqrstuvwxyz" ++ ascii "0123456789+/"

def encodeChar (value : Nat) : Byte := encodeTable.getD value 0

/-- `INVL`. -/
def invalid : Nat := 0xff

/-- The table of `DecodeBase64`, from `'+'` to `'z'`. -/
def decodeTable : List Nat :=
  [0x3e, invalid, invalid, invalid, 0x3f, 0x34, 0x35, 0x36,
   0x37, 0x38, 0x39, 0x3a, 0x3b, 0x3c, 0x3d, invalid,
   invalid, invalid, invalid, invalid, invalid, invalid, 0x00, 0x01,
   0x02, 0x03, 0x04, 0x05, 0x06, 0x07, 0x08, 0x09,
   0x0a, 0x0b, 0x0c, 0x0d, 0x0e, 0x0f, 0x10, 0x11,
   0x12, 0x13, 0x14, 0x15, 0x16, 0x17, 0x18, 0x19,
   invalid, invalid, invalid, invalid, invalid, invalid, 0x1a, 0x1b,
   0x1c, 0x1d, 0x1e, 0x1f, 0x20, 0x21, 0x22, 0x23,
   0x24, 0x25, 0x26, 0x27, 0x28, 0x29, 0x2a, 0x2b,
   0x2c, 0x2d, 0x2e, 0x2f, 0x30, 0x31, 0x32, 0x33]

def decodeChar (char : Byte) : Option Nat :=
  -- other characters are skipped
  if char < 43 then none
  else
    match decodeTable[char.toNat - 43]? with
    | none => none
    | some value => if value = invalid then none else some value

def newline : Byte := 10
def pad : Byte := 61

/-- The loop of `EncodeBase64`, which goes back from the end of `src` and of `dst`: `rest` is what
it has yet to read, and `out` what it has written. -/
def encodeLoop (bpl : Nat) : Bytes → Nat → Nat → Nat → Bytes → Bytes
  | [], prev, bits, _, out => if bits = 2 then encodeChar (prev >>> 2) :: out else out
  | x :: rest, prev, bits, cnt, out =>
    let (out, cnt) := if 0 < cnt then (out, cnt - 1) else (newline :: out, bpl - 1)
    let x := x.toNat
    let bits := (bits + 4) % 6
    let out :=
      match bits with
      | 0 => encodeChar (prev >>> 2) :: out
      | 2 => encodeChar (((x &&& 0x3) <<< 4) ||| (prev >>> 4)) :: out
      | 4 => encodeChar (((x &&& 0xf) <<< 2) ||| (prev >>> 6)) :: encodeChar (prev &&& 0x3f) :: out
      | _ => out
    encodeLoop bpl rest x bits cnt out

/-- The text at `dst`, up to its NUL. A `bpl` that is not positive is refused; an empty `src` is
read before its start. -/
def encodeBase64 (src : Bytes) (bpl : Nat) : Option Bytes :=
  if bpl = 0 then none
  else
    match src.reverse with
    | [] => none
    | last :: rest =>
      let size := src.length
      let prev := last.toNat
      let bits := (2 * size) % 6
      let cnt := if size % bpl = 0 then bpl else size % bpl
      let out :=
        match bits with
        | 2 => [encodeChar ((prev &&& 0x3) <<< 4), pad, pad]
        | 4 => [encodeChar ((prev &&& 0xf) <<< 2), pad]
        | _ => []
      some (encodeLoop bpl rest prev bits cnt out)

def decodeLoop : Bytes → Nat → Nat → Bytes
  | [], _, _ => []
  | char :: rest, prev, bits =>
    match decodeChar char with
    | none => decodeLoop rest prev bits
    | some value =>
      let bits := (bits + 6) &&& 0x7
      if bits ≠ 6 then
        (((prev <<< (6 - bits)) ||| (value >>> bits)) &&& 0xff).toUInt8 ::
          decodeLoop rest value bits
      else decodeLoop rest value bits

def decodeBase64 (src : Bytes) : Bytes := decodeLoop src 0 0

theorem decodeChar_encodeChar {value : Nat} (small : value < 64) :
    decodeChar (encodeChar value) = some value := by
  have all : ∀ value < 64, decodeChar (encodeChar value) = some value := by decide
  exact all value small

theorem decodeChar_newline : decodeChar newline = none := by decide

theorem decodeChar_pad : decodeChar pad = none := by decide

theorem low_bits (value : Nat) :
    value &&& 0x3 = value % 4 ∧ value &&& 0xf = value % 16 ∧ value &&& 0x3f = value % 64 ∧
      value &&& 0xff = value % 256 :=
  ⟨Nat.and_two_pow_sub_one_eq_mod value 2, Nat.and_two_pow_sub_one_eq_mod value 4,
    Nat.and_two_pow_sub_one_eq_mod value 6, Nat.and_two_pow_sub_one_eq_mod value 8⟩

theorem join_bits (high : Nat) {low bits size : Nat} (power : Nat.pow 2 bits = size)
    (small : low < size) : (high <<< bits) ||| low = high * size + low := by
  subst power
  exact (Nat.shiftLeft_add_eq_or_of_lt small high).symm.trans
    (congrArg (· + low) (Nat.shiftLeft_eq high bits))

theorem decodeLoop_skip {char : Byte} (skipped : decodeChar char = none) (rest : Bytes)
    (prev bits : Nat) : decodeLoop (char :: rest) prev bits = decodeLoop rest prev bits := by
  simp only [decodeLoop, skipped]

theorem decodeLoop_start {value : Nat} (small : value < 64) (rest : Bytes) (prev : Nat) :
    decodeLoop (encodeChar value :: rest) prev 0 = decodeLoop rest value 6 := by
  simp [decodeLoop, decodeChar_encodeChar small]

theorem decodeLoop_byte {value : Nat} (small : value < 64) (rest : Bytes) (prev : Nat) :
    decodeLoop (encodeChar value :: rest) prev 6 =
        ((prev * 4 + value / 16) % 256).toUInt8 :: decodeLoop rest value 4 ∧
      decodeLoop (encodeChar value :: rest) prev 4 =
        ((prev * 16 + value / 4) % 256).toUInt8 :: decodeLoop rest value 2 ∧
      decodeLoop (encodeChar value :: rest) prev 2 =
        ((prev * 64 + value) % 256).toUInt8 :: decodeLoop rest value 0 := by
  have six : (prev <<< 2) ||| (value >>> 4) = prev * 4 + value / 16 := by
    rw [Nat.shiftRight_eq_div_pow, join_bits prev (show Nat.pow 2 2 = 4 from rfl) (by omega)]
  have four : (prev <<< 4) ||| (value >>> 2) = prev * 16 + value / 4 := by
    rw [Nat.shiftRight_eq_div_pow, join_bits prev (show Nat.pow 2 4 = 16 from rfl) (by omega)]
  have two : (prev <<< 6) ||| value = prev * 64 + value := join_bits prev rfl small
  refine ⟨?_, ?_, ?_⟩
  · simp [decodeLoop, decodeChar_encodeChar small, six, (low_bits _).2.2.2]
  · simp [decodeLoop, decodeChar_encodeChar small, four, (low_bits _).2.2.2]
  · simp [decodeLoop, decodeChar_encodeChar small, two, (low_bits _).2.2.2]

theorem toUInt8_of_eq {value : Nat} {byte : Byte} (same : value % 256 = byte.toNat) :
    (value % 256).toUInt8 = byte := by
  rw [same]
  simp

/-- What the text written so far decodes to, together with the byte `prev`. -/
def decodeFrom (prev bits : Nat) (out : Bytes) : Bytes :=
  match bits with
  | 0 => prev.toUInt8 :: decodeLoop out 0 0
  | 2 => decodeLoop out (prev / 4) 6
  | _ => decodeLoop out (prev / 16) 4

theorem decodeFrom_newline (prev bits : Nat) (out : Bytes) :
    decodeFrom prev bits (newline :: out) = decodeFrom prev bits out := by
  simp only [decodeFrom, decodeLoop_skip decodeChar_newline]

theorem decodeLoop_boundary (out : Bytes) : ∀ prev other : Nat,
    decodeLoop out prev 0 = decodeLoop out other 0 := by
  induction out with
  | nil => exact fun _ _ => rfl
  | cons char out ih =>
    intro prev other
    cases value : decodeChar char with
    | none => simpa only [decodeLoop, value] using ih prev other
    | some value' => simp [decodeLoop, value]

theorem decodeLoop_low (out : Bytes) : ∀ prev other : Nat, prev % 16 = other % 16 →
    decodeLoop out prev 4 = decodeLoop out other 4 := by
  induction out with
  | nil => exact fun _ _ _ => rfl
  | cons char out ih =>
    intro prev other same
    cases value : decodeChar char with
    | none => simpa only [decodeLoop, value] using ih prev other same
    | some value' =>
      have bytes : ((prev <<< 4) ||| (value' >>> 2)) &&& 0xff =
          ((other <<< 4) ||| (value' >>> 2)) &&& 0xff := by
        rw [Nat.and_or_distrib_right, Nat.and_or_distrib_right]
        have high : (prev <<< 4) &&& 0xff = (other <<< 4) &&& 0xff := by
          rw [(low_bits _).2.2.2, (low_bits _).2.2.2, Nat.shiftLeft_eq, Nat.shiftLeft_eq]
          omega
        rw [high]
      simp [decodeLoop, value, bytes]

theorem decodeFrom_step (x : Byte) {prev : Nat} (small : prev < 256) (out : Bytes) :
    decodeFrom x.toNat 4 (encodeChar (((x.toNat &&& 0xf) <<< 2) ||| (prev >>> 6)) ::
        encodeChar (prev &&& 0x3f) :: out) = x :: decodeFrom prev 0 out ∧
      decodeFrom x.toNat 2 (encodeChar (((x.toNat &&& 0x3) <<< 4) ||| (prev >>> 4)) :: out) =
        x :: decodeFrom prev 4 out ∧
      decodeFrom x.toNat 0 (encodeChar (prev >>> 2) :: out) = x :: decodeFrom prev 2 out := by
  have bounded : x.toNat < 256 := x.toNat_lt
  refine ⟨?_, ?_, ?_⟩
  · have third : ((x.toNat &&& 0xf) <<< 2) ||| (prev >>> 6) = x.toNat % 16 * 4 + prev / 64 := by
      rw [(low_bits _).2.1, Nat.shiftRight_eq_div_pow,
        join_bits _ (show Nat.pow 2 2 = 4 from rfl) (by omega)]
    have fourth : prev &&& 0x3f = prev % 64 := (low_bits _).2.2.1
    simp only [decodeFrom, third, fourth]
    rw [(decodeLoop_byte (by omega) _ _).2.1, (decodeLoop_byte (by omega) _ _).2.2]
    congr 1
    · exact toUInt8_of_eq (by omega)
    · congr 1
      · congr 1
        omega
      · exact decodeLoop_boundary _ _ _
  · have second : ((x.toNat &&& 0x3) <<< 4) ||| (prev >>> 4) = x.toNat % 4 * 16 + prev / 16 := by
      rw [(low_bits _).1, Nat.shiftRight_eq_div_pow,
        join_bits _ (show Nat.pow 2 4 = 16 from rfl) (by omega)]
    simp only [decodeFrom, second]
    rw [(decodeLoop_byte (by omega) _ _).1]
    congr 1
    · exact toUInt8_of_eq (by omega)
    · exact decodeLoop_low _ _ _ (by omega)
  · have first : prev >>> 2 = prev / 4 := Nat.shiftRight_eq_div_pow _ _
    simp only [decodeFrom, first]
    rw [decodeLoop_start (by omega)]
    simp

theorem decodeLoop_encodeLoop (bpl : Nat) (rest : Bytes) : ∀ (prev bits cnt : Nat) (out : Bytes),
    prev < 256 → bits = 2 * (rest.length + 1) % 6 → ∀ start,
    decodeLoop (encodeLoop bpl rest prev bits cnt out) start 0 =
      rest.reverse ++ decodeFrom prev bits out := by
  induction rest with
  | nil =>
    intro prev bits cnt out small aligned start
    subst aligned
    have first : prev >>> 2 = prev / 4 := Nat.shiftRight_eq_div_pow _ _
    simp only [encodeLoop, List.length_nil, first]
    exact decodeLoop_start (by omega) out start
  | cons x rest ih =>
    intro prev bits cnt out small aligned start
    -- a newline goes in front of what is written, and is skipped
    have line : ∃ out' cnt', (if 0 < cnt then (out, cnt - 1) else (newline :: out, bpl - 1)) =
        (out', cnt') ∧ decodeFrom prev bits out' = decodeFrom prev bits out := by
      split
      · exact ⟨_, _, rfl, rfl⟩
      · exact ⟨_, _, rfl, decodeFrom_newline _ _ _⟩
    obtain ⟨out', cnt', taken, same⟩ := line
    obtain ⟨four, two, zero⟩ := decodeFrom_step x small out'
    have next : (bits + 4) % 6 = 2 * (rest.length + 1) % 6 := by
      rw [aligned, List.length_cons]
      omega
    have bounded : x.toNat < 256 := x.toNat_lt
    simp only [encodeLoop, taken]
    rw [ih _ _ _ _ bounded next, ← same, List.reverse_cons, List.append_assoc]
    have cases : bits = 0 ∨ bits = 2 ∨ bits = 4 := by omega
    rcases cases with rfl | rfl | rfl
    · exact congrArg (rest.reverse ++ ·) four
    · exact congrArg (rest.reverse ++ ·) zero
    · exact congrArg (rest.reverse ++ ·) two

theorem decodeBase64_encodeBase64 {src text : Bytes} {bpl : Nat}
    (encoded : encodeBase64 src bpl = some text) : decodeBase64 text = src := by
  simp only [encodeBase64] at encoded
  split at encoded
  next => simp at encoded
  next =>
    cases reversed : src.reverse with
    | nil => simp [reversed] at encoded
    | cons last rest =>
      have source : src = rest.reverse ++ [last] := by
        rw [← List.reverse_reverse src, reversed, List.reverse_cons]
      have length : src.length = rest.length + 1 := by simp [source]
      have bounded : last.toNat < 256 := last.toNat_lt
      simp only [reversed, Option.some.injEq] at encoded
      rw [← encoded, decodeBase64, length, decodeLoop_encodeLoop _ _ _ _ _ _ bounded rfl, source]
      congr 1
      have two : (last.toNat &&& 0x3) <<< 4 = last.toNat % 4 * 16 := by
        rw [(low_bits _).1, Nat.shiftLeft_eq]
      have four : (last.toNat &&& 0xf) <<< 2 = last.toNat % 16 * 4 := by
        rw [(low_bits _).2.1, Nat.shiftLeft_eq]
      have cases : 2 * (rest.length + 1) % 6 = 0 ∨ 2 * (rest.length + 1) % 6 = 2 ∨
        2 * (rest.length + 1) % 6 = 4 := by omega
      rcases cases with zero | two' | four'
      · simp [zero, decodeFrom, decodeLoop]
      · simp only [two', decodeFrom, two]
        rw [(decodeLoop_byte (by omega) _ _).1,
          decodeLoop_skip decodeChar_pad, decodeLoop_skip decodeChar_pad]
        simp only [decodeLoop, List.cons.injEq, and_true]
        exact toUInt8_of_eq (by omega)
      · simp only [four', decodeFrom, four]
        rw [(decodeLoop_byte (by omega) _ _).2.1,
          decodeLoop_skip decodeChar_pad]
        simp only [decodeLoop, List.cons.injEq, and_true]
        exact toUInt8_of_eq (by omega)

theorem encodeChar_mem {value : Nat} (small : value < 64) : encodeChar value ∈ encodeTable := by
  have all : ∀ value < 64, encodeChar value ∈ encodeTable := by decide
  exact all value small

theorem encodeLoop_line (bpl : Nat) (rest : Bytes) : ∀ (prev bits cnt : Nat) (out : Bytes),
    prev < 256 → rest.length ≤ cnt → ∃ front, encodeLoop bpl rest prev bits cnt out = front ++ out ∧
      (∀ char ∈ front, char ∈ encodeTable) ∧ front.length ≤ 2 * rest.length + 1 := by
  induction rest with
  | nil =>
    intro prev bits cnt out small _
    have first : prev >>> 2 = prev / 4 := Nat.shiftRight_eq_div_pow _ _
    rw [encodeLoop]
    split
    · refine ⟨[encodeChar (prev >>> 2)], rfl, ?_, by simp⟩
      intro char member
      rw [List.mem_singleton.1 member]
      exact encodeChar_mem (by omega)
    · exact ⟨[], rfl, by simp, by simp⟩
  | cons x rest ih =>
    intro prev bits cnt out small room
    rw [List.length_cons] at room
    have positive : 0 < cnt := by omega
    have bounded : x.toNat < 256 := x.toNat_lt
    have zero : prev >>> 2 < 64 := by
      rw [Nat.shiftRight_eq_div_pow]
      omega
    have two : ((x.toNat &&& 0x3) <<< 4) ||| (prev >>> 4) < 64 := by
      rw [(low_bits _).1, Nat.shiftRight_eq_div_pow,
        join_bits _ (show Nat.pow 2 4 = 16 from rfl) (by omega)]
      omega
    have four : ((x.toNat &&& 0xf) <<< 2) ||| (prev >>> 6) < 64 := by
      rw [(low_bits _).2.1, Nat.shiftRight_eq_div_pow,
        join_bits _ (show Nat.pow 2 2 = 4 from rfl) (by omega)]
      omega
    have low : prev &&& 0x3f < 64 := by
      rw [(low_bits _).2.2.1]
      omega
    -- the turn writes these characters
    have turn (chars : Bytes) (table : ∀ char ∈ chars, char ∈ encodeTable)
        (few : chars.length ≤ 2) : ∃ front,
        encodeLoop bpl rest x.toNat ((bits + 4) % 6) (cnt - 1) (chars ++ out) = front ++ out ∧
          (∀ char ∈ front, char ∈ encodeTable) ∧ front.length ≤ 2 * (rest.length + 1) + 1 := by
      obtain ⟨front, loop, all, short⟩ :=
        ih x.toNat ((bits + 4) % 6) (cnt - 1) (chars ++ out) bounded (by omega)
      refine ⟨front ++ chars, by rw [loop, List.append_assoc], ?_, ?_⟩
      · intro char member
        rcases List.mem_append.1 member with member | member
        · exact all char member
        · exact table char member
      · rw [List.length_append]
        omega
    simp only [encodeLoop, if_pos positive]
    split
    · exact turn [_] (by simpa using encodeChar_mem zero) (by simp)
    · exact turn [_] (by simpa using encodeChar_mem two) (by simp)
    · exact turn [_, _] (by simpa using ⟨encodeChar_mem four, encodeChar_mem low⟩) (by simp)
    · exact turn [] (by simp) (by simp)

theorem decodeLoop_append {tail : Bytes} (skipped : ∀ char ∈ tail, decodeChar char = none)
    (text : Bytes) : ∀ prev bits : Nat,
    decodeLoop (text ++ tail) prev bits = decodeLoop text prev bits := by
  induction text with
  | nil =>
    induction tail with
    | nil => exact fun _ _ => rfl
    | cons char tail ih =>
      intro prev bits
      rw [List.nil_append, decodeLoop_skip (skipped char List.mem_cons_self)]
      exact ih (fun other member => skipped other (List.mem_cons_of_mem _ member)) prev bits
  | cons char text ih =>
    intro prev bits
    rw [List.cons_append]
    simp only [decodeLoop, ih]

/-- A text on one line: characters of the table that decode to the data, and padding. -/
structure Line (src body pads : Bytes) : Prop where
  encoded : encodeBase64 src src.length = some (body ++ pads)
  table : ∀ char ∈ body, char ∈ encodeTable
  padding : ∀ char ∈ pads, char = pad
  decoded : decodeBase64 body = src
  short : (body ++ pads).length ≤ 2 * src.length + 2

theorem encodeBase64_line {src : Bytes} (present : src ≠ []) : ∃ body pads, Line src body pads := by
  have positive : src.length ≠ 0 := fun empty => present (List.length_eq_zero_iff.1 empty)
  cases reversed : src.reverse with
  | nil => exact absurd (List.reverse_eq_nil_iff.1 reversed) present
  | cons last rest =>
    have length : src.length = rest.length + 1 := by
      rw [← List.length_reverse, reversed, List.length_cons]
    have bounded : last.toNat < 256 := last.toNat_lt
    have two : (last.toNat &&& 0x3) <<< 4 < 64 := by
      rw [(low_bits _).1, Nat.shiftLeft_eq]
      omega
    have four : (last.toNat &&& 0xf) <<< 2 < 64 := by
      rw [(low_bits _).2.1, Nat.shiftLeft_eq]
      omega
    -- the end of the text is its last character, and padding
    have ends (tail pads : Bytes) (table : ∀ char ∈ tail, char ∈ encodeTable)
        (padding : ∀ char ∈ pads, char = pad) (few : (tail ++ pads).length ≤ 3)
        (encoded : encodeBase64 src src.length = some (encodeLoop src.length rest last.toNat
          ((2 * src.length) % 6) src.length (tail ++ pads))) : ∃ body pads, Line src body pads := by
      obtain ⟨front, loop, all, short⟩ := encodeLoop_line src.length rest last.toNat
        ((2 * src.length) % 6) src.length (tail ++ pads) bounded (by omega)
      rw [loop, ← List.append_assoc] at encoded
      have skipped : ∀ char ∈ pads, decodeChar char = none := by
        intro char member
        rw [padding char member]
        exact decodeChar_pad
      refine ⟨front ++ tail, pads, encoded, ?_, padding, ?_, ?_⟩
      · intro char member
        rcases List.mem_append.1 member with member | member
        · exact all char member
        · exact table char member
      · have whole := decodeBase64_encodeBase64 encoded
        rw [decodeBase64, decodeLoop_append skipped] at whole
        exact whole
      · rw [List.append_assoc, List.length_append]
        omega
    have cases : (2 * src.length) % 6 = 0 ∨ (2 * src.length) % 6 = 2 ∨ (2 * src.length) % 6 = 4 := by
      omega
    rcases cases with zero | two' | four'
    · exact ends [] [] (by simp) (by simp) (by simp) (by
        simp [encodeBase64, positive, reversed, zero])
    · exact ends [encodeChar ((last.toNat &&& 0x3) <<< 4)] [pad, pad]
        (by simpa using encodeChar_mem two) (by simp) (by simp) (by
        simp [encodeBase64, positive, reversed, two'])
    · exact ends [encodeChar ((last.toNat &&& 0xf) <<< 2)] [pad]
        (by simpa using encodeChar_mem four) (by simp) (by simp) (by
        simp [encodeBase64, positive, reversed, four'])

end Ptp.Encoding
