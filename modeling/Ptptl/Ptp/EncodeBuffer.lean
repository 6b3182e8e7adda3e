import Ptptl.Library.CInt
import Ptptl.Library.Memory
import Ptptl.Ptp.EncodeText

set_option autoImplicit false

/-! # `EncodeBase64` on memory, where its buffers may overlap -/

namespace Ptp.Encoding

open CInt Memory

/-- `total`, in ints. -/
def total (size bpl : Int) : Option Int := do
  let rounded ← checked (size + 2)
  let total ← checked (rounded.tdiv 3 * 4)
  if size > bpl then checked (total + (size - 1).tdiv bpl) else return total

/-- `strlen`; a string without a NUL in the range of an int has no size. -/
def stringSize (cells : Int → Byte) (src : Int) : Nat → Option Int
  | 0 => none
  | fuel + 1 =>
    if cells src = 0 then some 0
    else
      match stringSize cells (src + 1) fuel with
      | none => none
      | some size => some (size + 1)

/-- The loop; `s` is at the last of `unread` bytes. -/
def bufferLoop (src : Int) (bpl : Nat) :
    Nat → Nat → Nat → Nat → Writer Byte → Writer Byte
  | 0, prev, bits, _, out => if bits = 2 then out.put (encodeChar (prev >>> 2)) else out
  | unread + 1, prev, bits, cnt, out =>
    let (out, cnt) := if 0 < cnt then (out, cnt - 1) else (out.put newline, bpl - 1)
    let (x, out) := out.get (src + unread)
    let x := x.toNat
    let bits := (bits + 4) % 6
    let out :=
      match bits with
      | 0 => out.put (encodeChar (prev >>> 2))
      | 2 => out.put (encodeChar (((x &&& 0x3) <<< 4) ||| (prev >>> 4)))
      | 4 =>
        (out.put (encodeChar (prev &&& 0x3f))).put
          (encodeChar (((x &&& 0xf) <<< 2) ||| (prev >>> 6)))
      | _ => out
    bufferLoop src bpl unread x bits cnt out

/-- The result and the memory after the call; a null pointer is `none`. -/
def encodeBuffer (cells : Int → Byte) (src : Option Int) (size : Int) (dst : Option Int)
    (bpl : Int) : Option (Int × Writer Byte) :=
  match src with
  | none => some (-1, .start cells 0)
  | some src => do
    if bpl ≤ 0 then return (-1, .start cells 0)
    let size ← if size = -1 then stringSize cells src 2147483648 else some size
    let total ← total size bpl
    match dst with
    | none => return (total, .start cells 0)
    | some dst =>
      -- `*s--` is before `src` when there is nothing to encode
      if size ≤ 0 then none
      let (prev, out) := (Writer.start cells (dst + total)).get (src + (size - 1))
      let prev := prev.toNat
      let bits ← checked (2 * size)
      let bits := (bits % 6).toNat
      let cnt := (size % bpl).toNat
      let out := out.put 0
      let (out, cnt) :=
        if cnt = 0 then (if size % bpl ≠ 0 then out.put newline else out, bpl.toNat) else (out, cnt)
      let out :=
        match bits with
        | 2 => ((out.put pad).put pad).put (encodeChar ((prev &&& 0x3) <<< 4))
        | 4 => (out.put pad).put (encodeChar ((prev &&& 0xf) <<< 2))
        | _ => out
      return (total, bufferLoop src bpl.toNat (size - 1).toNat prev bits cnt out)

theorem bufferLoop_succ (src : Int) (bpl unread prev bits cnt : Nat) (out : Writer Byte) :
    bufferLoop src bpl (unread + 1) prev bits cnt out =
      let read := (out.puts (if 0 < cnt then [] else [newline])).get (src + unread)
      bufferLoop src bpl unread read.1.toNat ((bits + 4) % 6) (if 0 < cnt then cnt - 1 else bpl - 1)
        (read.2.puts (turn prev read.1.toNat ((bits + 4) % 6))) := by
  rw [bufferLoop]
  generalize (bits + 4) % 6 = next
  by_cases room : 0 < cnt
  next =>
    simp only [room, if_true, turn, Writer.puts]
    split <;> simp [*, Writer.puts]
  next =>
    simp only [room, if_false, turn, Writer.puts]
    split <;> simp [*, Writer.puts]

theorem bufferLoop_zero (src : Int) (bpl : Nat) (prev : Byte) (cnt : Nat) (out : Writer Byte) :
    bufferLoop src bpl 0 prev.toNat 2 cnt out = out.put (encodeChar (prev.toNat / 4)) := by
  rw [bufferLoop, if_pos rfl, Nat.shiftRight_eq_div_pow]

theorem bufferLoop_stored {last : Int} (src : Int) {bpl : Nat} (positive : bpl ≠ 0) (unread : Nat) :
    ∀ (prev : Byte) (bits cnt : Nat) (out : Writer Byte), bits = 2 * (unread + 1) % 6 →
    Stored last out →
    Stored last (bufferLoop src bpl unread prev.toNat bits cnt out) ∧
      (bufferLoop src bpl unread prev.toNat bits cnt out).d =
        out.d - (4 * (unread + 1) / 3 + newlines bpl unread cnt : Nat) := by
  induction unread with
  | zero =>
    intro prev bits cnt out aligned stored
    subst aligned
    rw [bufferLoop_zero]
    exact ⟨stored.put _, by simp [newlines]⟩
  | succ unread ih =>
    intro prev bits cnt out aligned stored
    have next : (bits + 4) % 6 = 2 * (unread + 1) % 6 := by omega
    have turned : Stored last
        (((out.puts (if 0 < cnt then [] else [newline])).get (src + unread)).2.puts
          (turn prev.toNat ((out.puts (if 0 < cnt then [] else [newline])).get
            (src + unread)).1.toNat (2 * (unread + 1) % 6))) :=
      ((stored.puts _).get _).puts _
    obtain ⟨kept, place⟩ := ih ((out.puts (if 0 < cnt then [] else [newline])).get
      (src + unread)).1 _ (if 0 < cnt then cnt - 1 else bpl - 1) _ rfl turned
    have characters := turn_length ((out.puts (if 0 < cnt then [] else [newline])).get
      (src + unread)).1.toNat prev.toNat_lt (unread + 1)
    have line : (if 0 < cnt then ([] : Bytes) else [newline]).length = if 0 < cnt then 0 else 1 := by
      split <;> rfl
    rw [bufferLoop_succ]
    simp only [next]
    refine ⟨kept, ?_⟩
    rw [place, Writer.puts_d, Writer.get_d, Writer.puts_d, newlines_succ positive, line]
    omega

/-- The loop on memory writes what the loop on lists does: what it has yet to read lies below
what it writes. -/
theorem bufferLoop_written {cells : Int → Byte} {src dst last : Int} {size bpl : Nat}
    (positive : bpl ≠ 0) (clear : src ≤ dst ∨ last < src) (unread : Nat) :
    ∀ (prev : Byte) (bits cnt : Nat) (text : Bytes) (out : Writer Byte),
    bits = 2 * (unread + 1) % 6 → unread ≤ size →
    dst + (4 * (unread + 1) / 3 + newlines bpl unread cnt : Nat) ≤ out.d + 1 →
    Written cells src last size unread text out →
    Written cells src last size 0
      (encodeLoop bpl (backwards cells src unread) prev.toNat bits cnt text)
      (bufferLoop src bpl unread prev.toNat bits cnt out) := by
  induction unread with
  | zero =>
    intro prev bits cnt text out aligned within room written
    subst aligned
    rw [bufferLoop_zero, backwards, encodeLoop_nil]
    exact written.put _
  | succ unread ih =>
    intro prev bits cnt text out aligned within room written
    have next : (bits + 4) % 6 = 2 * (unread + 1) % 6 := by omega
    have lined := written.puts (if 0 < cnt then [] else [newline])
    have line : (if 0 < cnt then ([] : Bytes) else [newline]).length = if 0 < cnt then 0 else 1 := by
      split <;> rfl
    have same : (if 0 < cnt then ([] : Bytes) else [newline]) ++ text =
        if 0 < cnt then text else newline :: text := by
      split <;> rfl
    have lower := Writer.puts_d out (if 0 < cnt then ([] : Bytes) else [newline])
    rw [line] at lower
    rw [newlines_succ positive] at room
    have below : src + unread ≤ (out.puts (if 0 < cnt then [] else [newline])).d ∨
        last < src + unread := by
      rw [lower]
      omega
    have value := lined.get_value below
    have read := lined.get (by omega) below
    have characters := turn_length (cells (src + unread)).toNat prev.toNat_lt (unread + 1)
    have turned := read.puts (turn prev.toNat (cells (src + unread)).toNat (2 * (unread + 1) % 6))
    rw [same] at turned
    rw [bufferLoop_succ, backwards, encodeLoop_cons]
    simp only [next, value]
    refine ih _ _ _ _ _ rfl (by omega) ?_ turned
    rw [Writer.puts_d, Writer.get_d, lower]
    omega

def textSize (size bpl : Nat) : Nat := (size + 2) / 3 * 4 + (size - 1) / bpl

theorem total_correct {size bpl : Nat} (present : 0 < size) :
    total size bpl = checked (textSize size bpl : Nat) := by
  have rounded : ((size : Int) + 2).tdiv 3 * 4 = ((size + 2) / 3 * 4 : Nat) := by
    rw [Int.tdiv_eq_ediv_of_nonneg (by omega)]
    omega
  have lines : ((size : Int) - 1).tdiv bpl = ((size - 1) / bpl : Nat) := by
    rw [Int.tdiv_eq_ediv_of_nonneg (by omega)]
    have before : (size : Int) - 1 = ((size - 1 : Nat) : Int) := by omega
    rw [before]
    rfl
  by_cases small : ((size + 2) / 3 * 4 : Nat) ≤ intMax
  next =>
    have first : checked ((size : Int) + 2) = some ((size : Int) + 2) :=
      checked_of_le (by omega) (by unfold intMax at *; omega)
    have second : checked (((size + 2) / 3 * 4 : Nat) : Int) =
        some (((size + 2) / 3 * 4 : Nat) : Int) := checked_of_le (by omega) small
    rw [total, first, Option.bind_eq_bind, Option.bind_some, rounded, second, Option.bind_some,
      lines]
    by_cases more : (size : Int) > bpl
    next =>
      rw [if_pos more, textSize, Int.natCast_add]
    next =>
      have none : (size - 1) / bpl = 0 := Nat.div_eq_of_lt (by omega)
      rw [if_neg more, textSize, none, Nat.add_zero]
      exact second.symm
  next =>
    have more : (size + 2) / 3 * 4 ≤ textSize size bpl := Nat.le_add_right _ _
    have large : checked (textSize size bpl : Nat) = none := checked_eq_none.2 (.inr (by omega))
    have second : checked (((size + 2) / 3 * 4 : Nat) : Int) = none :=
      checked_eq_none.2 (.inr (by omega))
    rw [total, large]
    cases first : checked ((size : Int) + 2) with
    | none => rfl
    | some value =>
      obtain ⟨_, rfl⟩ := checked_eq_some.1 first
      rw [Option.bind_eq_bind, Option.bind_some, rounded, second]
      rfl

def encoded (cells : Int → Byte) (src dst : Int) (size bpl : Nat) : Writer Byte :=
  let read := (Writer.start cells (dst + textSize size bpl)).get (src + ((size - 1 : Nat) : Int))
  bufferLoop src bpl (size - 1) read.1.toNat (2 * size % 6)
    (if size % bpl = 0 then bpl else size % bpl)
    ((read.2.put 0).puts (ending read.1.toNat (2 * size % 6)))

theorem puts_ending (out : Writer Byte) (prev bits : Nat) :
    (match bits with
      | 2 => ((out.put pad).put pad).put (encodeChar ((prev &&& 0x3) <<< 4))
      | 4 => (out.put pad).put (encodeChar ((prev &&& 0xf) <<< 2))
      | _ => out) = out.puts (ending prev bits) := by
  unfold ending
  split <;> simp [*, Writer.puts]

theorem encodeBuffer_correct (cells : Int → Byte) (src dst : Int) {size bpl : Nat}
    (present : 0 < size) (positive : 0 < bpl) :
    encodeBuffer cells (some src) size (some dst) bpl =
      if ((2 * size : Nat) : Int) ≤ intMax ∧ ((textSize size bpl : Nat) : Int) ≤ intMax then
        some (((textSize size bpl : Nat) : Int), encoded cells src dst size bpl)
      else none := by
  have wide : ¬ (bpl : Int) ≤ 0 := by omega
  have given : ¬ (size : Int) = -1 := by omega
  have some_ : ¬ (size : Int) ≤ 0 := by omega
  have last : (size : Int) - 1 = ((size - 1 : Nat) : Int) := by omega
  have twice : (2 * (size : Int)) = ((2 * size : Nat) : Int) := by omega
  have bits : (((2 * size : Nat) : Int) % 6).toNat = 2 * size % 6 := by omega
  have column : ((size : Int) % (bpl : Int)).toNat = size % bpl := by
    rw [← Int.natCast_mod, Int.toNat_natCast]
  -- the newline of the source's `if (size % bpl)` is never written
  have line (out : Writer Byte) :
      (if size % bpl = 0 then
        (if (size : Int) % (bpl : Int) ≠ 0 then out.put newline else out, bpl)
      else (out, size % bpl)) = (out, if size % bpl = 0 then bpl else size % bpl) := by
    split
    next whole =>
      have none : (size : Int) % (bpl : Int) = 0 := by rw [← Int.natCast_mod, whole, Int.natCast_zero]
      simp [none]
    next => rfl
  unfold encodeBuffer
  simp only [wide, given, some_, if_false, total_correct present, last, twice, column,
    Option.pure_def, Option.bind_eq_bind, Option.bind_some, Int.toNat_natCast, line, puts_ending]
  by_cases fits : ((textSize size bpl : Nat) : Int) ≤ intMax
  next =>
    rw [checked_of_le (by omega) fits, Option.bind_some]
    by_cases small : ((2 * size : Nat) : Int) ≤ intMax
    next =>
      have both : ((2 * size : Nat) : Int) ≤ intMax ∧ ((textSize size bpl : Nat) : Int) ≤ intMax :=
        ⟨small, fits⟩
      rw [checked_of_le (by omega) small, Option.bind_some, bits, if_pos both]
      rfl
    next =>
      have both : ¬ (((2 * size : Nat) : Int) ≤ intMax ∧
        ((textSize size bpl : Nat) : Int) ≤ intMax) := fun both => small both.1
      rw [checked_eq_none.2 (.inr (by omega)), if_neg both]
      rfl
  next =>
    have both : ¬ (((2 * size : Nat) : Int) ≤ intMax ∧
      ((textSize size bpl : Nat) : Int) ≤ intMax) := fun both => fits both.2
    rw [checked_eq_none.2 (.inr (by omega)), if_neg both]
    rfl

theorem encodeBuffer_overflow (cells : Int → Byte) (src dst : Int) {size bpl : Nat}
    (positive : 0 < bpl) (large : 1073741824 ≤ size) :
    encodeBuffer cells (some src) size (some dst) bpl = none := by
  have overflow : ¬ (((2 * size : Nat) : Int) ≤ intMax ∧
      ((textSize size bpl : Nat) : Int) ≤ intMax) := by
    unfold intMax
    omega
  rw [encodeBuffer_correct cells src dst (by omega) positive, if_neg overflow]

theorem encoded_stored (cells : Int → Byte) (src dst : Int) {size bpl : Nat} (present : 0 < size)
    (positive : 0 < bpl) :
    Stored (dst + textSize size bpl) (encoded cells src dst size bpl) ∧
      (encoded cells src dst size bpl).d = dst - 1 + ((size - 1) / bpl : Nat) -
        (newlines bpl (size - 1) (if size % bpl = 0 then bpl else size % bpl) : Nat) := by
  have last : size - 1 + 1 = size := by omega
  have aligned : 2 * size % 6 = 2 * (size - 1 + 1) % 6 := by rw [last]
  have characters := ending_length (cells (src + ((size - 1 : Nat) : Int))).toNat size
  have start := Stored.start cells (dst + textSize size bpl)
  have ended := ((start.get (src + ((size - 1 : Nat) : Int))).put 0).puts
    (ending (cells (src + ((size - 1 : Nat) : Int))).toNat (2 * size % 6))
  obtain ⟨stored, place⟩ := bufferLoop_stored src (Nat.ne_of_gt positive) (size - 1)
    (cells (src + ((size - 1 : Nat) : Int))) _ (if size % bpl = 0 then bpl else size % bpl) _
    aligned ended
  refine ⟨stored, place.trans ?_⟩
  rw [Writer.puts_d, Writer.put_d, Writer.get_d, Writer.start_d, last, textSize]
  generalize (size - 1) / bpl = lines
  omega

theorem encoded_written (cells : Int → Byte) {src dst : Int} {size bpl : Nat} (present : 0 < size)
    (positive : 0 < bpl) (clear : src ≤ dst ∨ dst + textSize size bpl < src) :
    ∃ text, encodeBase64 (backwards cells src size).reverse bpl = some text ∧
      Written cells src (dst + textSize size bpl) size 0 (text ++ [0])
        (encoded cells src dst size bpl) := by
  obtain ⟨unread, rfl⟩ : ∃ unread, size = unread + 1 := ⟨size - 1, by omega⟩
  have source : (backwards cells src (unread + 1)).reverse =
      (backwards cells src unread).reverse ++ [cells (src + unread)] := List.reverse_cons
  have length : (backwards cells src (unread + 1)).reverse.length = unread + 1 := by simp
  have start := Written.start cells src (dst + textSize (unread + 1) bpl) (unread + 1)
  have below : src + (unread : Int) ≤
      (Writer.start cells (dst + textSize (unread + 1) bpl)).d ∨
        dst + (textSize (unread + 1) bpl : Nat) < src + (unread : Int) := by
    rw [Writer.start_d]
    unfold textSize at *
    omega
  have read := ((start.get (Nat.lt_succ_self unread) below).put 0).puts
    (ending (cells (src + unread)).toNat (2 * (unread + 1) % 6))
  have room : dst + (4 * (unread + 1) / 3 + newlines bpl unread
      (if (unread + 1) % bpl = 0 then bpl else (unread + 1) % bpl) : Nat) ≤
        ((((Writer.start cells (dst + textSize (unread + 1) bpl)).get (src + unread)).2.put 0).puts
          (ending (cells (src + unread)).toNat (2 * (unread + 1) % 6))).d + 1 := by
    have characters := ending_length (cells (src + unread)).toNat (unread + 1)
    have lines := newlines_le positive present
    rw [Nat.add_sub_cancel] at lines
    rw [Writer.puts_d, Writer.put_d, Writer.get_d, Writer.start_d, textSize, Nat.add_sub_cancel]
    generalize unread / bpl = line at *
    omega
  refine ⟨_, encodeBase64_cons (Nat.ne_of_gt positive) source, ?_⟩
  rw [length, ← encodeLoop_append]
  exact bufferLoop_written (Nat.ne_of_gt positive) clear unread (cells (src + unread)) _ _ _ _ rfl
    (Nat.le_succ unread) room read

theorem encodeBase64_size {src text : Bytes} {bpl : Nat} (wide : 2 ≤ bpl)
    (encoded : encodeBase64 src bpl = some text) : text.length = textSize src.length bpl := by
  rw [encodeBase64_length encoded, encodeBase64_newlines wide encoded, textSize]

theorem sizes_fit {size bpl : Nat} (lines : 2 ≤ bpl ∨ size = 1) :
    ((2 * size : Nat) : Int) ≤ intMax ∧ ((textSize size bpl : Nat) : Int) ≤ intMax ↔
      size < 1073741824 := by
  have few : (size - 1) / bpl ≤ (size - 1) / 2 := by
    rcases lines with wide | one
    · exact Nat.div_le_div_left wide (by omega)
    · rw [one, Nat.sub_self, Nat.zero_div]
  unfold textSize intMax
  constructor
  next =>
    intro fits
    omega
  next =>
    intro small
    have twice : ((size + 2) / 3 * 4 + (size - 1) / bpl) ≤ 2147483647 := by omega
    exact ⟨by omega, by exact_mod_cast twice⟩

/-- The positions from `dst` to `dst + total` are stored to once each, and no other. -/
def Fills (cells : Int → Byte) (src size dst bpl : Int) : Prop :=
  ∃ total out, encodeBuffer cells (some src) size (some dst) bpl = some (total, out) ∧
    ∀ position, out.accesses.count (.store position) =
      if dst ≤ position ∧ position ≤ dst + total then 1 else 0

theorem fills_of_lines (cells : Int → Byte) (src dst : Int) {size bpl : Nat} (present : 0 < size)
    (positive : 0 < bpl) (lines : 2 ≤ bpl ∨ size = 1) (small : size < 1073741824) :
    Fills cells src size dst bpl := by
  obtain ⟨stored, place⟩ := encoded_stored cells src dst present positive
  have exact_ : newlines bpl (size - 1) (if size % bpl = 0 then bpl else size % bpl) =
      (size - 1) / bpl := by
    rcases lines with wide | one
    · exact newlines_start wide present
    · have le := newlines_le positive present
      rw [one, Nat.sub_self, Nat.zero_div] at le ⊢
      exact Nat.le_zero.1 le
  have bottom : (encoded cells src dst size bpl).d = dst - 1 := by
    rw [place, exact_]
    omega
  refine ⟨_, _, (encodeBuffer_correct cells src dst present positive).trans
    (if_pos ((sizes_fit lines).2 small)), fun position => ?_⟩
  have same : (dst - 1 < position ∧ position ≤ dst + (textSize size bpl : Nat)) ↔
      dst ≤ position ∧ position ≤ dst + (textSize size bpl : Nat) := by omega
  rw [stored.2, bottom]
  simp only [same]

theorem not_fills_of_narrow (cells : Int → Byte) (src dst : Int) {size : Nat} (more : 2 ≤ size) :
    ¬ Fills cells src size dst 1 := by
  rintro ⟨total, out, call, once⟩
  have present : 0 < size := by omega
  obtain ⟨stored, place⟩ := encoded_stored cells src dst present Nat.one_pos
  rw [newlines_narrow, Nat.div_one] at place
  have called := (encodeBuffer_correct cells src dst present Nat.one_pos).symm.trans call
  split at called
  next =>
    simp only [Option.some.injEq, Prod.mk.injEq] at called
    obtain ⟨rfl, rfl⟩ := called
    have first := once dst
    have outside : ¬ ((encoded cells src dst size 1).d < dst ∧
        dst ≤ dst + (textSize size 1 : Nat)) := by omega
    have inside : dst ≤ dst ∧ dst ≤ dst + (textSize size 1 : Nat) := by omega
    rw [stored.2, if_neg outside, if_pos inside] at first
    exact absurd first (by decide)
  next => simp at called

theorem encodeBase64_fills_iff (cells : Int → Byte) (src dst : Int) {size : Nat} {bpl : Int}
    (present : 0 < size) (accepted : 1 ≤ bpl) :
    Fills cells src size dst bpl ↔ (2 ≤ bpl ∨ size = 1) ∧ size < 1073741824 := by
  obtain ⟨bpl, rfl⟩ := Int.eq_ofNat_of_zero_le (by omega : 0 ≤ bpl)
  have positive : 0 < bpl := by omega
  constructor
  next =>
    intro fills
    refine ⟨?_, ?_⟩
    · by_contra narrow
      have one : bpl = 1 := by omega
      subst one
      exact not_fills_of_narrow cells src dst (by omega) fills
    · by_contra large
      obtain ⟨_, _, call, _⟩ := fills
      rw [encodeBuffer_overflow cells src dst positive (by omega)] at call
      exact absurd call (by simp)
  next =>
    rintro ⟨lines, small⟩
    exact fills_of_lines cells src dst present positive (by omega) small

theorem encodeBase64_fills_iff_four :
    0 < 4 ∧ 1 ≤ (2 : Int) ∧ (Fills (fun _ => 7) 0 4 100 2 ↔ (2 ≤ (2 : Int) ∨ 4 = 1) ∧ 4 < 1073741824) :=
  ⟨by decide, by decide, encodeBase64_fills_iff (fun _ => 7) 0 100 (by decide) (by decide)⟩

theorem encodeBase64_fills_narrow :
    ¬ ∀ (cells : Int → Byte) (src dst : Int) (size : Nat) (bpl : Int), 0 < size → 1 ≤ bpl →
      Fills cells src size dst bpl := fun fills =>
  not_fills_of_narrow (fun _ => 0) 0 100 (by decide) (fills (fun _ => 0) 0 100 2 1 (by decide) (by decide))

theorem stringSize_holds {cells : Int → Byte} (text : Bytes) : ∀ {start : Int} {fuel : Nat},
    Holds cells start (text ++ [0]) → (0 : Byte) ∉ text → text.length < fuel →
    stringSize cells start fuel = some (text.length : Int) := by
  induction text with
  | nil =>
    intro start fuel holds _ enough
    obtain ⟨fuel, rfl⟩ := Nat.exists_eq_succ_of_ne_zero (by omega : fuel ≠ 0)
    have nul := holds 0 (by simp)
    simp only [Int.natCast_zero, Int.add_zero] at nul
    simp [stringSize, nul]
  | cons char rest ih =>
    intro start fuel holds clean enough
    obtain ⟨fuel, rfl⟩ := Nat.exists_eq_succ_of_ne_zero (by omega : fuel ≠ 0)
    have first := holds 0 (by simp)
    simp only [Int.natCast_zero, Int.add_zero, List.cons_append, List.getElem_cons_zero] at first
    have char_ : char ≠ 0 := fun zero => clean (zero ▸ List.mem_cons_self)
    have behind : Holds cells (start + 1) (rest ++ [0]) := by
      intro index inside
      have value := holds (index + 1) (by simpa using inside)
      have place : start + ((index + 1 : Nat) : Int) = start + 1 + index := by omega
      rw [place] at value
      simpa using value
    rw [List.length_cons] at enough
    have size : stringSize cells (start + 1) fuel = some (rest.length : Int) :=
      ih behind (fun member => clean (List.mem_cons_of_mem _ member)) (by omega)
    simp [stringSize, first, char_, size]

def EncodesText (cells : Int → Byte) (src : Int) (source : Bytes) (dst bpl : Int) : Prop :=
  ∃ text out, encodeBuffer cells (some src) source.length (some dst) bpl =
      some ((text.length : Int), out) ∧
    Holds out.cells dst (text ++ [0]) ∧ Base64Text source bpl.toNat text

theorem encoded_text {cells : Int → Byte} {src dst : Int} {size bpl : Nat} (present : 0 < size)
    (wide : 2 ≤ bpl) (clear : src ≤ dst ∨ dst + textSize size bpl < src) :
    ∃ text, encodeBase64 (backwards cells src size).reverse bpl = some text ∧
      text.length = textSize size bpl ∧
      Holds (encoded cells src dst size bpl).cells dst (text ++ [0]) := by
  obtain ⟨text, encoding, written⟩ := encoded_written cells present (by omega) clear
  have length : text.length = textSize size bpl := by
    rw [encodeBase64_size wide encoding, List.length_reverse, backwards_length]
  have cursor := written.cursor
  rw [List.length_append, List.length_singleton, length] at cursor
  have bottom : (encoded cells src dst size bpl).d + 1 = dst := by omega
  have copied := written.text
  rw [bottom] at copied
  exact ⟨text, encoding, length, copied⟩

/-- Every non-empty string in lines of two bytes or more: the text is the standard one as long as
twice the size is an int. -/
theorem encodeBase64_correct_iff {cells : Int → Byte} {src dst bpl : Int} {source : Bytes}
    (present : source ≠ []) (wide : 2 ≤ bpl) (holds : Holds cells src source)
    (clear : src ≤ dst ∨ dst + textSize source.length bpl.toNat < src) :
    EncodesText cells src source dst bpl ↔ source.length < 1073741824 := by
  obtain ⟨bpl, rfl⟩ := Int.eq_ofNat_of_zero_le (by omega : 0 ≤ bpl)
  rw [Int.toNat_natCast] at clear
  have some_ : 0 < source.length := List.length_pos_of_ne_nil present
  constructor
  next =>
    rintro ⟨_, _, call, _⟩
    by_contra large
    rw [encodeBuffer_overflow cells src dst (by omega) (by omega)] at call
    exact absurd call (by simp)
  next =>
    intro small
    obtain ⟨text, encoding, length, copied⟩ := encoded_text some_ (by omega) clear
    rw [holds.backwards, List.reverse_reverse] at encoding
    have call := (encodeBuffer_correct cells src dst some_ (by omega)).trans
      (if_pos ((sizes_fit (.inl (by omega : 2 ≤ bpl))).2 small))
    rw [← length] at call
    exact ⟨text, _, call, copied, encodeBase64_text (by omega) encoding⟩

theorem encodeBase64_correct_man :
    [77, 97, 110] ≠ ([] : Bytes) ∧ 2 ≤ (36 : Int) ∧
      Holds (fun position => [77, 97, 110].getD position.toNat 0) 0 ([77, 97, 110] : Bytes) ∧
      (EncodesText (fun position => [77, 97, 110].getD position.toNat 0) 0 [77, 97, 110] 100 36 ↔
        [77, 97, 110].length < 1073741824) := by
  have holds : Holds (fun position => ([77, 97, 110] : Bytes).getD position.toNat 0) 0
      ([77, 97, 110] : Bytes) := by
    intro index inside
    simp only [List.length_cons, List.length_nil] at inside
    have cases : index = 0 ∨ index = 1 ∨ index = 2 := by omega
    rcases cases with rfl | rfl | rfl <;> rfl
  exact ⟨by decide, by decide, holds,
    encodeBase64_correct_iff (by decide) (by decide) holds (.inl (by decide))⟩

theorem encodeBase64_overflows :
    ¬ ∀ (cells : Int → Byte) (src dst bpl : Int) (source : Bytes), source ≠ [] → 2 ≤ bpl →
      Holds cells src source → src ≤ dst → EncodesText cells src source dst bpl := by
  intro encodes
  have length : (List.replicate 1073741824 (0 : Byte)).length = 1073741824 := List.length_replicate
  have present : List.replicate 1073741824 (0 : Byte) ≠ [] := by
    intro empty
    rw [empty] at length
    exact absurd length (by decide)
  have holds : Holds (fun _ => 0) 0 (List.replicate 1073741824 (0 : Byte)) :=
    fun index inside => (List.getElem_replicate inside).symm
  obtain ⟨_, _, call, _⟩ := encodes _ 0 2000000000 36 _ present (by decide) holds (by decide)
  rw [length] at call
  exact absurd (call.symm.trans (encodeBuffer_overflow _ 0 2000000000 (show 0 < 36 by decide)
    (Nat.le_refl 1073741824))) (by simp)

/-- A call whose output starts at its input leaves what a call with buffers apart leaves, and has
read each byte before it stores there. -/
def InPlace (cells : Int → Byte) (src apart : Int) (size : Nat) (bpl : Int) : Prop :=
  ∃ total inPlace separate,
    encodeBuffer cells (some src) size (some src) bpl = some (total, inPlace) ∧
    encodeBuffer cells (some src) size (some apart) bpl = some (total, separate) ∧
    (∀ index : Nat, (index : Int) ≤ total →
      inPlace.cells (src + index) = separate.cells (apart + index)) ∧
    (∀ index < size, .load (src + index) ∈ inPlace.accesses) ∧ ReadFirst inPlace.accesses

theorem encodeBase64_inPlace_iff (cells : Int → Byte) {src apart bpl : Int} {size : Nat}
    (present : 0 < size) (wide : 2 ≤ bpl)
    (separate : src + size ≤ apart ∨ apart + textSize size bpl.toNat < src) :
    InPlace cells src apart size bpl ↔ size < 1073741824 := by
  obtain ⟨bpl, rfl⟩ := Int.eq_ofNat_of_zero_le (by omega : 0 ≤ bpl)
  rw [Int.toNat_natCast] at separate
  constructor
  next =>
    rintro ⟨_, _, _, call, _⟩
    by_contra large
    rw [encodeBuffer_overflow cells src src (by omega) (by omega)] at call
    exact absurd call (by simp)
  next =>
    intro small
    have fits := (sizes_fit (.inl (by omega : 2 ≤ bpl))).2 small
    obtain ⟨text, encoding, length, here⟩ :=
      encoded_text present (by omega : 2 ≤ bpl) (.inl (Int.le_refl src))
    obtain ⟨text', encoding', _, there⟩ := encoded_text present (by omega : 2 ≤ bpl)
      (show src ≤ apart ∨ apart + textSize size bpl < src by omega)
    obtain ⟨_, _, written⟩ := encoded_written cells present (by omega : 0 < bpl)
      (.inl (Int.le_refl src))
    have same : text' = text := Option.some.inj (encoding'.symm.trans encoding)
    subst same
    refine ⟨_, _, _, (encodeBuffer_correct cells src src present (by omega)).trans (if_pos fits),
      (encodeBuffer_correct cells src apart present (by omega)).trans (if_pos fits), ?_, ?_,
      written.readFirst⟩
    · intro index within
      have inside : index < (text' ++ [0]).length := by
        rw [List.length_append, List.length_singleton, length]
        omega
      rw [here index inside, there index inside]
    · intro index within
      refine List.count_pos_iff.1 ?_
      rw [written.loaded, if_pos ⟨by omega, by omega⟩]
      exact Nat.one_pos

theorem encodeBase64_inPlace_four :
    0 < 4 ∧ 2 ≤ (2 : Int) ∧ (InPlace (fun _ => 7) 0 100 4 2 ↔ 4 < 1073741824) :=
  ⟨by decide, by decide, encodeBase64_inPlace_iff (fun _ => 7) (by decide) (by decide)
    (.inl (by decide))⟩

theorem encodeBase64_inPlace_overflows :
    ¬ ∀ (cells : Int → Byte) (src apart bpl : Int) (size : Nat), 0 < size → 2 ≤ bpl →
      src + size ≤ apart → InPlace cells src apart size bpl := by
  intro inPlace
  obtain ⟨_, _, _, call, _⟩ := inPlace (fun _ => 0) 0 2000000000 36 1073741824 (by decide)
    (by decide) (by decide)
  exact absurd (call.symm.trans (encodeBuffer_overflow _ 0 0 (show 0 < 36 by decide)
    (Nat.le_refl 1073741824))) (by simp)

end Ptp.Encoding
