import Ptptl.Ptp.Encode
import Mathlib.Data.Nat.ModEq

set_option autoImplicit false

/-! # The text of an encoding: its characters and its lines -/

namespace Ptp.Encoding

def sextet (group : Nat) (index : Nat) : Byte := encodeChar (group / Nat.pow 64 (3 - index) % 64)

def standardBase64 : Bytes → Bytes
  | a :: b :: c :: rest =>
    let group := a.toNat * 65536 + b.toNat * 256 + c.toNat
    sextet group 0 :: sextet group 1 :: sextet group 2 :: sextet group 3 :: standardBase64 rest
  | [a, b] =>
    let group := a.toNat * 65536 + b.toNat * 256
    [sextet group 0, sextet group 1, sextet group 2, pad]
  | [a] =>
    let group := a.toNat * 65536
    [sextet group 0, sextet group 1, pad, pad]
  | [] => []

theorem standardBase64_length : ∀ src : Bytes,
    (standardBase64 src).length = (src.length + 2) / 3 * 4
  | a :: b :: c :: rest => by
    simp only [standardBase64, List.length_cons, standardBase64_length rest]
    omega
  | [a, b] => by simp [standardBase64]
  | [a] => by simp [standardBase64]
  | [] => by simp [standardBase64]

def complete : Bytes → Bytes
  | a :: b :: c :: rest =>
    let group := a.toNat * 65536 + b.toNat * 256 + c.toNat
    sextet group 0 :: sextet group 1 :: sextet group 2 :: sextet group 3 :: complete rest
  | [a, b] =>
    let group := a.toNat * 65536 + b.toNat * 256
    [sextet group 0, sextet group 1]
  | [a] => [sextet (a.toNat * 65536) 0]
  | [] => []

def turn (prev x bits : Nat) : Bytes :=
  match bits with
  | 0 => [encodeChar (prev >>> 2)]
  | 2 => [encodeChar (((x &&& 0x3) <<< 4) ||| (prev >>> 4))]
  | 4 => [encodeChar (((x &&& 0xf) <<< 2) ||| (prev >>> 6)), encodeChar (prev &&& 0x3f)]
  | _ => []

def ending (last bits : Nat) : Bytes :=
  match bits with
  | 2 => [encodeChar ((last &&& 0x3) <<< 4), pad, pad]
  | 4 => [encodeChar ((last &&& 0xf) <<< 2), pad]
  | _ => []

theorem encodeLoop_cons (bpl : Nat) (x : Byte) (rest : Bytes) (prev bits cnt : Nat) (out : Bytes) :
    encodeLoop bpl (x :: rest) prev bits cnt out =
      encodeLoop bpl rest x.toNat ((bits + 4) % 6) (if 0 < cnt then cnt - 1 else bpl - 1)
        (turn prev x.toNat ((bits + 4) % 6) ++ if 0 < cnt then out else newline :: out) := by
  rw [encodeLoop]
  generalize (bits + 4) % 6 = next
  by_cases room : 0 < cnt
  next =>
    simp only [room, if_true, turn]
    split <;> simp [*]
  next =>
    simp only [room, if_false, turn]
    split <;> simp [*]

theorem encodeBase64_cons {src : Bytes} {last : Byte} {rest : Bytes} {bpl : Nat}
    (positive : bpl ≠ 0) (source : src = rest.reverse ++ [last]) :
    encodeBase64 src bpl = some (encodeLoop bpl rest last.toNat (2 * src.length % 6)
      (if src.length % bpl = 0 then bpl else src.length % bpl)
      (ending last.toNat (2 * src.length % 6))) := by
  have reversed : src.reverse = last :: rest := by simp [source]
  rw [encodeBase64, if_neg positive, reversed]
  rfl

theorem turn_values {prev : Nat} (x : Nat) (small : prev < 256) :
    turn prev x 0 = [encodeChar (prev / 4)] ∧
      turn prev x 2 = [encodeChar (x % 4 * 16 + prev / 16)] ∧
      turn prev x 4 = [encodeChar (x % 16 * 4 + prev / 64), encodeChar (prev % 64)] := by
  have zero : prev >>> 2 = prev / 4 := Nat.shiftRight_eq_div_pow _ _
  have two : ((x &&& 0x3) <<< 4) ||| (prev >>> 4) = x % 4 * 16 + prev / 16 := by
    rw [(low_bits _).1, Nat.shiftRight_eq_div_pow,
      join_bits _ (show Nat.pow 2 4 = 16 from rfl) (by omega)]
  have four : ((x &&& 0xf) <<< 2) ||| (prev >>> 6) = x % 16 * 4 + prev / 64 := by
    rw [(low_bits _).2.1, Nat.shiftRight_eq_div_pow,
      join_bits _ (show Nat.pow 2 2 = 4 from rfl) (by omega)]
  exact ⟨by rw [turn, zero], by rw [turn, two], by rw [turn, four, (low_bits _).2.2.1]⟩

theorem ending_values (last : Nat) :
    ending last 0 = [] ∧ ending last 2 = [encodeChar (last % 4 * 16), pad, pad] ∧
      ending last 4 = [encodeChar (last % 16 * 4), pad] := by
  refine ⟨rfl, ?_, ?_⟩
  · rw [ending, (low_bits _).1, Nat.shiftLeft_eq]
  · rw [ending, (low_bits _).2.1, Nat.shiftLeft_eq]

theorem sextet_values {a b c : Nat} (first : a < 256) (second : b < 256) (third : c < 256) :
    sextet (a * 65536 + b * 256 + c) 0 = encodeChar (a / 4) ∧
      sextet (a * 65536 + b * 256 + c) 1 = encodeChar (a % 4 * 16 + b / 16) ∧
      sextet (a * 65536 + b * 256 + c) 2 = encodeChar (b % 16 * 4 + c / 64) ∧
      sextet (a * 65536 + b * 256 + c) 3 = encodeChar (c % 64) := by
  have highest : (a * 65536 + b * 256 + c) / 262144 % 64 = a / 4 := by omega
  have higher : (a * 65536 + b * 256 + c) / 4096 % 64 = a % 4 * 16 + b / 16 := by omega
  have lower : (a * 65536 + b * 256 + c) / 64 % 64 = b % 16 * 4 + c / 64 := by omega
  have lowest : (a * 65536 + b * 256 + c) / 1 % 64 = c % 64 := by omega
  exact ⟨congrArg encodeChar highest, congrArg encodeChar higher, congrArg encodeChar lower,
    congrArg encodeChar lowest⟩

theorem sextet_two {a b : Nat} (first : a < 256) (second : b < 256) :
    sextet (a * 65536 + b * 256) 0 = encodeChar (a / 4) ∧
      sextet (a * 65536 + b * 256) 1 = encodeChar (a % 4 * 16 + b / 16) ∧
      sextet (a * 65536 + b * 256) 2 = encodeChar (b % 16 * 4) := by
  obtain ⟨highest, higher, lower, _⟩ := sextet_values first second (show 0 < 256 by omega)
  exact ⟨by simpa using highest, by simpa using higher, by simpa using lower⟩

theorem sextet_one {a : Nat} (first : a < 256) :
    sextet (a * 65536) 0 = encodeChar (a / 4) ∧
      sextet (a * 65536) 1 = encodeChar (a % 4 * 16) := by
  obtain ⟨highest, higher, _⟩ := sextet_two first (show 0 < 256 by omega)
  exact ⟨by simpa using highest, by simpa using higher⟩

/-- One more byte behind: the loop's turn, read forwards. -/
theorem complete_snoc (x prev : Byte) : ∀ front : Bytes,
    complete (front ++ [x, prev]) = complete (front ++ [x]) ++
      turn prev.toNat x.toNat (2 * (front.length + 1) % 6)
  | a :: b :: c :: front => by
    have aligned : 2 * ((a :: b :: c :: front).length + 1) % 6 = 2 * (front.length + 1) % 6 := by
      simp only [List.length_cons]
      omega
    rw [aligned]
    simp only [complete, List.cons_append, complete_snoc x prev front]
  | [a, b] => by
    obtain ⟨zero, _, _⟩ := turn_values x.toNat prev.toNat_lt
    have single := (sextet_one prev.toNat_lt).1
    simp [complete, zero, single]
  | [a] => by
    obtain ⟨_, _, four⟩ := turn_values x.toNat prev.toNat_lt
    obtain ⟨highest, higher, lower, lowest⟩ := sextet_values a.toNat_lt x.toNat_lt prev.toNat_lt
    obtain ⟨first, second, _⟩ := sextet_two a.toNat_lt x.toNat_lt
    simp [complete, four, highest, higher, lower, lowest, first, second]
  | [] => by
    obtain ⟨_, two, _⟩ := turn_values x.toNat prev.toNat_lt
    obtain ⟨first, second, _⟩ := sextet_two x.toNat_lt prev.toNat_lt
    have single := (sextet_one x.toNat_lt).1
    simp [complete, two, first, second, single]

theorem standardBase64_snoc (last : Byte) : ∀ front : Bytes,
    standardBase64 (front ++ [last]) = complete (front ++ [last]) ++
      ending last.toNat (2 * (front.length + 1) % 6)
  | a :: b :: c :: front => by
    have aligned : 2 * ((a :: b :: c :: front).length + 1) % 6 = 2 * (front.length + 1) % 6 := by
      simp only [List.length_cons]
      omega
    rw [aligned]
    simp only [standardBase64, complete, List.cons_append, standardBase64_snoc last front]
  | [a, b] => by
    simp [standardBase64, complete, ending]
  | [a] => by
    obtain ⟨_, _, third⟩ := sextet_two a.toNat_lt last.toNat_lt
    simp [standardBase64, complete, (ending_values _).2.2, third]
  | [] => by
    simp [standardBase64, complete, (ending_values _).2.1, (sextet_one last.toNat_lt).2]

theorem table_no_newline {char : Byte} (table : char ∈ encodeTable) : char ≠ newline := by
  rintro rfl
  exact absurd table (by decide)

theorem turn_cases {prev : Nat} (x : Nat) (small : prev < 256) (count : Nat) :
    (∃ value < 64, turn prev x (2 * count % 6) = [encodeChar value] ∧ count % 3 ≠ 2) ∨
      ∃ first < 64, ∃ second < 64,
        turn prev x (2 * count % 6) = [encodeChar first, encodeChar second] ∧ count % 3 = 2 := by
  obtain ⟨zero, two, four⟩ := turn_values x small
  have cases : 2 * count % 6 = 0 ∨ 2 * count % 6 = 2 ∨ 2 * count % 6 = 4 := by omega
  rcases cases with bits | bits | bits
  · exact .inl ⟨prev / 4, by omega, by rw [bits, zero], by omega⟩
  · exact .inl ⟨x % 4 * 16 + prev / 16, by omega, by rw [bits, two], by omega⟩
  · exact .inr ⟨x % 16 * 4 + prev / 64, by omega, prev % 64, by omega, by rw [bits, four], by omega⟩

theorem turn_table {prev : Nat} (x : Nat) (small : prev < 256) (count : Nat) :
    ∀ char ∈ turn prev x (2 * count % 6), char ∈ encodeTable := by
  rcases turn_cases x small count with ⟨value, bound, turn, _⟩ | ⟨first, low, second, high, turn, _⟩
  · simpa [turn] using encodeChar_mem bound
  · simpa [turn] using ⟨encodeChar_mem low, encodeChar_mem high⟩

theorem turn_length {prev : Nat} (x : Nat) (small : prev < 256) (count : Nat) :
    (turn prev x (2 * count % 6)).length + 4 * count / 3 = 4 * (count + 1) / 3 := by
  rcases turn_cases x small count with ⟨_, _, turn, phase⟩ | ⟨_, _, _, _, turn, phase⟩
  · have phases : count % 3 = 0 ∨ count % 3 = 1 := by omega
    simp only [turn, List.length_singleton]
    rcases phases with whole | first <;> omega
  · simp only [turn, List.length_cons, List.length_nil]
    omega

theorem ending_length (last count : Nat) :
    (ending last (2 * count % 6)).length + 4 * count / 3 = (count + 2) / 3 * 4 := by
  obtain ⟨zero, two, four⟩ := ending_values last
  have cases : 2 * count % 6 = 0 ∨ 2 * count % 6 = 2 ∨ 2 * count % 6 = 4 := by omega
  rcases cases with bits | bits | bits
  · rw [bits, zero, List.length_nil]
    omega
  · rw [bits, two]
    simp only [List.length_cons, List.length_nil]
    omega
  · rw [bits, four]
    simp only [List.length_cons, List.length_nil]
    omega

theorem ending_no_newline (last count : Nat) : newline ∉ ending last (2 * count % 6) := by
  obtain ⟨zero, two, four⟩ := ending_values last
  have cases : 2 * count % 6 = 0 ∨ 2 * count % 6 = 2 ∨ 2 * count % 6 = 4 := by omega
  have pad : newline ≠ pad := by decide
  rcases cases with bits | bits | bits
  · simp [bits, zero]
  · have char := (table_no_newline (encodeChar_mem (show last % 4 * 16 < 64 by omega))).symm
    simp [bits, two, pad, char]
  · have char := (table_no_newline (encodeChar_mem (show last % 16 * 4 < 64 by omega))).symm
    simp [bits, four, pad, char]

def plain (text : Bytes) : Bytes := text.filter (· ≠ newline)

theorem plain_eq_self {text : Bytes} (none : newline ∉ text) : plain text = text := by
  refine List.filter_eq_self.2 fun char member => ?_
  simp only [decide_eq_true_eq]
  rintro rfl
  exact none member

theorem plain_append (front back : Bytes) : plain (front ++ back) = plain front ++ plain back :=
  List.filter_append front back

theorem plain_newline (text : Bytes) : plain (newline :: text) = plain text :=
  List.filter_cons_of_neg (by simp)

theorem plain_turn {prev : Nat} (x : Nat) (small : prev < 256) (count : Nat) :
    plain (turn prev x (2 * count % 6)) = turn prev x (2 * count % 6) :=
  plain_eq_self fun member => table_no_newline (turn_table x small count _ member) rfl

theorem encodeLoop_nil (bpl : Nat) (prev : Byte) (cnt : Nat) (out : Bytes) :
    encodeLoop bpl [] prev.toNat 2 cnt out = encodeChar (prev.toNat / 4) :: out := by
  rw [encodeLoop, if_pos rfl, Nat.shiftRight_eq_div_pow]

theorem encodeLoop_plain (bpl : Nat) (rest : Bytes) : ∀ (prev : Byte) (bits cnt : Nat) (out : Bytes),
    bits = 2 * (rest.length + 1) % 6 →
    plain (encodeLoop bpl rest prev.toNat bits cnt out) =
      complete (rest.reverse ++ [prev]) ++ plain out := by
  induction rest with
  | nil =>
    intro prev bits cnt out aligned
    subst aligned
    have bounded : prev.toNat < 256 := prev.toNat_lt
    have char := table_no_newline (encodeChar_mem (show prev.toNat / 4 < 64 by omega))
    have single := (sextet_one bounded).1
    rw [List.length_nil, encodeLoop_nil, plain, List.filter_cons_of_pos (by simpa using char)]
    simp [complete, single, plain]
  | cons x rest ih =>
    intro prev bits cnt out aligned
    have next : (bits + 4) % 6 = 2 * (rest.length + 1) % 6 := by
      rw [aligned, List.length_cons]
      omega
    have same : plain (if 0 < cnt then out else newline :: out) = plain out := by
      split
      next => rfl
      next => exact plain_newline out
    have forwards := complete_snoc x prev rest.reverse
    rw [List.length_reverse] at forwards
    rw [encodeLoop_cons, next, ih x _ _ _ rfl, plain_append, plain_turn _ prev.toNat_lt, same,
      List.reverse_cons, List.append_assoc rest.reverse, List.singleton_append, forwards,
      List.append_assoc]

theorem encodeBase64_split {src text : Bytes} {bpl : Nat} (encoded : encodeBase64 src bpl = some text) :
    bpl ≠ 0 ∧ ∃ rest last, src = rest.reverse ++ [last] ∧ src.length = rest.length + 1 ∧
      text = encodeLoop bpl rest last.toNat (2 * (rest.length + 1) % 6)
        (if src.length % bpl = 0 then bpl else src.length % bpl)
        (ending last.toNat (2 * (rest.length + 1) % 6)) := by
  have positive : bpl ≠ 0 := by
    rintro rfl
    simp [encodeBase64] at encoded
  refine ⟨positive, ?_⟩
  cases reversed : src.reverse with
  | nil => simp [encodeBase64, reversed] at encoded
  | cons last rest =>
    have source : src = rest.reverse ++ [last] := by
      rw [← List.reverse_reverse src, reversed, List.reverse_cons]
    have length : src.length = rest.length + 1 := by simp [source]
    rw [encodeBase64_cons positive source, Option.some.injEq] at encoded
    exact ⟨rest, last, source, length, by rw [← encoded, length]⟩

theorem encodeBase64_plain {src text : Bytes} {bpl : Nat} (encoded : encodeBase64 src bpl = some text) :
    plain text = standardBase64 src := by
  obtain ⟨_, rest, last, source, _, rfl⟩ := encodeBase64_split encoded
  have forwards := standardBase64_snoc last rest.reverse
  rw [List.length_reverse] at forwards
  rw [encodeLoop_plain _ _ _ _ _ _ rfl, plain_eq_self (ending_no_newline _ _), source, forwards]

/-- The newlines that `unread` bytes bring, when `cnt` of them fit on the line. -/
def newlines (bpl unread cnt : Nat) : Nat :=
  if unread ≤ cnt then 0 else (unread - cnt - 1) / bpl + 1

theorem newlines_succ {bpl : Nat} (positive : bpl ≠ 0) (unread cnt : Nat) :
    newlines bpl (unread + 1) cnt =
      newlines bpl unread (if 0 < cnt then cnt - 1 else bpl - 1) + if 0 < cnt then 0 else 1 := by
  by_cases room : 0 < cnt
  next =>
    have same : unread + 1 - cnt - 1 = unread - (cnt - 1) - 1 := by omega
    have either : unread + 1 ≤ cnt ↔ unread ≤ cnt - 1 := by omega
    simp only [newlines, room, if_true, same, either, Nat.add_zero]
  next =>
    have none : cnt = 0 := by omega
    subst none
    by_cases line : unread ≤ bpl - 1
    next =>
      have first : unread / bpl = 0 := Nat.div_eq_of_lt (by omega)
      simp [newlines, line, first]
    next =>
      have more : unread / bpl = (unread - (bpl - 1) - 1) / bpl + 1 := by
        rw [← Nat.add_div_right _ (by omega)]
        congr 1
        omega
      simp [newlines, line, more]

theorem encodeLoop_newlines {bpl : Nat} (positive : bpl ≠ 0) (rest : Bytes) :
    ∀ (prev : Byte) (bits cnt : Nat) (out : Bytes), bits = 2 * (rest.length + 1) % 6 →
    (encodeLoop bpl rest prev.toNat bits cnt out).count newline =
      newlines bpl rest.length cnt + out.count newline := by
  induction rest with
  | nil =>
    intro prev bits cnt out aligned
    subst aligned
    have char := table_no_newline (encodeChar_mem (show prev.toNat / 4 < 64 by
      have bounded : prev.toNat < 256 := prev.toNat_lt
      omega))
    rw [List.length_nil, encodeLoop_nil, List.count_cons_of_ne char]
    simp [newlines]
  | cons x rest ih =>
    intro prev bits cnt out aligned
    have next : (bits + 4) % 6 = 2 * (rest.length + 1) % 6 := by
      rw [aligned, List.length_cons]
      omega
    have chars : (turn prev.toNat x.toNat (2 * (rest.length + 1) % 6)).count newline = 0 :=
      List.count_eq_zero.2 fun member =>
        table_no_newline (turn_table x.toNat prev.toNat_lt _ _ member) rfl
    have line : (if 0 < cnt then out else newline :: out).count newline =
        (if 0 < cnt then 0 else 1) + out.count newline := by
      split <;> simp [Nat.add_comm]
    rw [encodeLoop_cons, next, ih x _ _ _ rfl, List.count_append, chars, line, List.length_cons,
      newlines_succ positive]
    omega

theorem newlines_start {bpl size : Nat} (wide : 2 ≤ bpl) (present : 0 < size) :
    newlines bpl (size - 1) (if size % bpl = 0 then bpl else size % bpl) = (size - 1) / bpl := by
  have line {total : Nat} (count low : Nat) (short : low < bpl) (same : total = bpl * count + low) :
      total / bpl = count := by
    rw [same, Nat.mul_add_div (by omega), Nat.div_eq_of_lt short, Nat.add_zero]
  obtain ⟨count, low, short, same⟩ : ∃ count low, low < bpl ∧ size = bpl * count + low :=
    ⟨size / bpl, size % bpl, Nat.mod_lt _ (by omega), (Nat.div_add_mod size bpl).symm⟩
  subst same
  have remainder : (bpl * count + low) % bpl = low := by
    rw [Nat.mul_add_mod, Nat.mod_eq_of_lt short]
  rw [remainder]
  cases count with
  | zero =>
    have none : low ≠ 0 := by omega
    have first : (low - 1) / bpl = 0 := Nat.div_eq_of_lt (by omega)
    simp [newlines, none, first]
  | succ count =>
    rw [Nat.mul_succ]
    by_cases none : low = 0
    next =>
      subst none
      have last : (bpl * count + bpl + 0 - 1) / bpl = count :=
        line count (bpl - 1) (by omega) (by omega)
      rw [if_pos rfl, last]
      cases count with
      | zero => simp [newlines]
      | succ count =>
        have product : bpl * (count + 1) = bpl * count + bpl := Nat.mul_succ bpl count
        have more : ¬ bpl * (count + 1) + bpl + 0 - 1 ≤ bpl := by omega
        have before : (bpl * (count + 1) + bpl + 0 - 1 - bpl - 1) / bpl = count :=
          line count (bpl - 2) (by omega) (by omega)
        rw [newlines, if_neg more, before]
    next =>
      have product : bpl * (count + 1) = bpl * count + bpl := Nat.mul_succ bpl count
      have last : (bpl * count + bpl + low - 1) / bpl = count + 1 :=
        line (count + 1) (low - 1) (by omega) (by omega)
      have more : ¬ bpl * count + bpl + low - 1 ≤ low := by omega
      have before : (bpl * count + bpl + low - 1 - low - 1) / bpl = count :=
        line count (bpl - 2) (by omega) (by omega)
      rw [if_neg none, last, newlines, if_neg more, before]

theorem encodeBase64_newlines {src text : Bytes} {bpl : Nat} (wide : 2 ≤ bpl)
    (encoded : encodeBase64 src bpl = some text) :
    text.count newline = (src.length - 1) / bpl := by
  obtain ⟨positive, rest, last, _, length, rfl⟩ := encodeBase64_split encoded
  have start := newlines_start wide (show 0 < src.length by omega)
  have unread : rest.length = src.length - 1 := by omega
  rw [encodeLoop_newlines positive _ _ _ _ _ rfl, List.count_eq_zero.2 (ending_no_newline _ _),
    ← start, unread, Nat.add_zero]

theorem newlines_narrow (size : Nat) :
    newlines 1 (size - 1) (if size % 1 = 0 then 1 else size % 1) = size - 2 := by
  rw [Nat.mod_one, if_pos rfl, newlines]
  split <;> omega

theorem newlines_le {bpl size : Nat} (positive : 0 < bpl) (present : 0 < size) :
    newlines bpl (size - 1) (if size % bpl = 0 then bpl else size % bpl) ≤ (size - 1) / bpl := by
  by_cases wide : 2 ≤ bpl
  next => exact Nat.le_of_eq (newlines_start wide present)
  next =>
    have narrow : bpl = 1 := by omega
    subst narrow
    rw [newlines_narrow, Nat.div_one]
    omega

theorem plain_length (text : Bytes) : (plain text).length + text.count newline = text.length := by
  induction text with
  | nil => rfl
  | cons char text ih =>
    by_cases same : char = newline
    next =>
      subst same
      rw [plain_newline, List.count_cons_self, List.length_cons, ← ih, Nat.add_assoc]
    next =>
      rw [plain, List.filter_cons_of_pos (by simpa using same), List.count_cons_of_ne same,
        List.length_cons, List.length_cons, ← ih, plain]
      omega

theorem encodeBase64_length {src text : Bytes} {bpl : Nat}
    (encoded : encodeBase64 src bpl = some text) :
    text.length = (src.length + 2) / 3 * 4 + text.count newline := by
  rw [← plain_length, encodeBase64_plain encoded, standardBase64_length]

theorem encodeLoop_append (bpl : Nat) (rest : Bytes) : ∀ (prev bits cnt : Nat) (front back : Bytes),
    encodeLoop bpl rest prev bits cnt (front ++ back) =
      encodeLoop bpl rest prev bits cnt front ++ back := by
  induction rest with
  | nil =>
    intro prev bits cnt front back
    rw [encodeLoop, encodeLoop]
    split
    next => rfl
    next => rfl
  | cons x rest ih =>
    intro prev bits cnt front back
    rw [encodeLoop_cons, encodeLoop_cons, ← ih]
    split
    next => rw [List.append_assoc]
    next => rw [List.append_assoc, List.cons_append]

theorem encodeLoop_first (bpl : Nat) (rest : Bytes) : ∀ (prev : Byte) (bits cnt : Nat) (out : Bytes),
    bits = 2 * (rest.length + 1) % 6 →
    ∃ value < 64, ∃ tail,
      encodeLoop bpl rest prev.toNat bits cnt out = encodeChar value :: tail := by
  induction rest with
  | nil =>
    intro prev bits cnt out aligned
    have bounded : prev.toNat < 256 := prev.toNat_lt
    exact ⟨prev.toNat / 4, by omega, out, by rw [aligned, List.length_nil, encodeLoop_nil]⟩
  | cons x rest ih =>
    intro prev bits cnt out aligned
    have next : (bits + 4) % 6 = 2 * (rest.length + 1) % 6 := by
      rw [aligned, List.length_cons]
      omega
    rw [encodeLoop_cons, next]
    exact ih x _ _ _ rfl

theorem encodeBase64_first {src text : Bytes} {bpl : Nat}
    (encoded : encodeBase64 src bpl = some text) : text.head? ≠ some newline := by
  obtain ⟨_, rest, last, _, _, rfl⟩ := encodeBase64_split encoded
  obtain ⟨value, small, tail, loop⟩ := encodeLoop_first bpl rest last _
    (if src.length % bpl = 0 then bpl else src.length % bpl)
    (ending last.toNat (2 * (rest.length + 1) % 6)) rfl
  rw [loop, List.head?_cons, Ne, Option.some.injEq]
  exact table_no_newline (encodeChar_mem small)

theorem encodeBase64_last {src text : Bytes} {bpl : Nat}
    (encoded : encodeBase64 src bpl = some text) : text.getLast? ≠ some newline := by
  obtain ⟨positive, rest, last, _, length, rfl⟩ := encodeBase64_split encoded
  have ends {text : Bytes} (tail : Bytes) {char : Byte}
      (suffix : ∃ front, text = front ++ (tail ++ [char])) (other : char ≠ newline) :
      text.getLast? ≠ some newline := by
    obtain ⟨front, rfl⟩ := suffix
    rw [← List.append_assoc, List.getLast?_concat, Ne, Option.some.injEq]
    exact other
  have suffix (rest : Bytes) (prev bits cnt : Nat) (out : Bytes) :
      ∃ front, encodeLoop bpl rest prev bits cnt out = front ++ out :=
    ⟨_, encodeLoop_append bpl rest prev bits cnt [] out⟩
  obtain ⟨zero, two, four⟩ := ending_values last.toNat
  have cases : 2 * (rest.length + 1) % 6 = 0 ∨ 2 * (rest.length + 1) % 6 = 2 ∨
    2 * (rest.length + 1) % 6 = 4 := by omega
  have pad : pad ≠ newline := by decide
  rcases cases with bits | bits | bits
  · -- the last byte ends a group, and the first turn stays on its line
    cases rest with
    | nil => simp at bits
    | cons x rest =>
      have room : 0 < if src.length % bpl = 0 then bpl else src.length % bpl := by
        split <;> omega
      obtain ⟨_, _, turns⟩ := turn_values x.toNat last.toNat_lt
      rw [bits, zero, encodeLoop_cons, if_pos room, if_pos room, turns, List.append_nil]
      refine ends [_] (suffix _ _ _ _ _) ?_
      exact table_no_newline (encodeChar_mem (by omega))
  · rw [bits, two]
    exact ends [_, _] (suffix _ _ _ _ _) pad
  · rw [bits, four]
    exact ends [_] (suffix _ _ _ _ _) pad

/-- Every line of the text has `width` characters but its last one, and its first one, which
has `left` to go. -/
def Ruled (width left : Nat) (text : Bytes) : Prop :=
  ∃ line lines, text.splitOn newline = line :: lines ∧
    (∀ full ∈ lines.dropLast, full.length = width) ∧ (lines ≠ [] → line.length + left = width)

theorem Ruled.char {width left : Nat} {text : Bytes} {char : Byte} (other : char ≠ newline)
    (ruled : Ruled width (left + 1) text) : Ruled width left (char :: text) := by
  obtain ⟨line, lines, split, full, first⟩ := ruled
  refine ⟨char :: line, lines, ?_, full, fun more => ?_⟩
  · rw [List.splitOn_cons_eq_if_modifyHead, split]
    simp [other]
  · rw [List.length_cons, ← first more]
    omega

theorem Ruled.newline {width : Nat} {text : Bytes} (ruled : Ruled width 0 text) :
    Ruled width width (newline :: text) := by
  obtain ⟨line, lines, split, full, first⟩ := ruled
  refine ⟨[], line :: lines, ?_, ?_, fun _ => Nat.zero_add width⟩
  · rw [List.splitOn_cons_eq_if_modifyHead, split]
    simp
  · cases lines with
    | nil => simp
    | cons next lines =>
      rw [List.dropLast_cons_cons]
      exact List.forall_mem_cons.2 ⟨first (by simp), full⟩

theorem Ruled.turn {width left prev : Nat} {text : Bytes} (x : Nat) (small : prev < 256)
    (count : Nat) (ruled : Ruled width (left + (turn prev x (2 * count % 6)).length) text) :
    Ruled width left (turn prev x (2 * count % 6) ++ text) := by
  have table := turn_table x small count
  rcases turn_cases x small count with ⟨_, _, turns, _⟩ | ⟨_, _, _, _, turns, _⟩
  · rw [turns] at ruled table ⊢
    exact ruled.char (table_no_newline (table _ (by simp)))
  · rw [turns] at ruled table ⊢
    exact (ruled.char (table_no_newline (table _ (by simp)))).char
      (table_no_newline (table _ (by simp)))

theorem encodeLoop_ruled {bpl : Nat} (positive : bpl ≠ 0) (groups : 3 ∣ bpl) (rest : Bytes) :
    ∀ (prev : Byte) (bits cnt : Nat) (out : Bytes), bits = 2 * (rest.length + 1) % 6 →
    (rest.length + 1) % bpl = cnt % bpl → cnt ≤ bpl → Ruled (4 * bpl / 3) (4 * cnt / 3) out →
    Ruled (4 * bpl / 3) 0 (encodeLoop bpl rest prev.toNat bits cnt out) := by
  obtain ⟨third, rfl⟩ := groups
  induction rest with
  | nil =>
    intro prev bits cnt out aligned column within ruled
    subst aligned
    have one : cnt = 1 := by
      rw [List.length_nil, Nat.zero_add, Nat.mod_eq_of_lt (by omega)] at column
      rcases Nat.lt_or_eq_of_le within with less | full
      · rw [Nat.mod_eq_of_lt less] at column
        exact column.symm
      · rw [full, Nat.mod_self] at column
        exact absurd column (by omega)
    subst one
    have bounded : prev.toNat < 256 := prev.toNat_lt
    rw [List.length_nil, encodeLoop_nil]
    exact ruled.char (table_no_newline (encodeChar_mem (by omega)))
  | cons x rest ih =>
    intro prev bits cnt out aligned column within ruled
    have next : (bits + 4) % 6 = 2 * (rest.length + 1) % 6 := by
      rw [aligned, List.length_cons]
      omega
    have characters := turn_length x.toNat prev.toNat_lt (rest.length + 1)
    -- a column of the line and its place in the data are at the same phase
    have phase : (rest.length + 1 + 1) % 3 = cnt % 3 := by
      have same := congrArg (· % 3) column
      simpa only [List.length_cons, Nat.mod_mul_right_mod] using same
    rw [encodeLoop_cons, next]
    by_cases room : 0 < cnt
    next =>
      obtain ⟨cnt, rfl⟩ := Nat.exists_eq_succ_of_ne_zero (by omega : cnt ≠ 0)
      have before : (rest.length + 1) % (3 * third) = cnt % (3 * third) :=
        Nat.ModEq.add_right_cancel' 1 column
      have place : 4 * (cnt + 1) / 3 =
          4 * cnt / 3 + (turn prev.toNat x.toNat (2 * (rest.length + 1) % 6)).length := by
        have phases : cnt % 3 = 0 ∨ cnt % 3 = 1 ∨ cnt % 3 = 2 := by omega
        rcases phases with zero | one | two <;> omega
      rw [if_pos room, if_pos room]
      refine ih x _ _ _ rfl before (by omega) (Ruled.turn _ prev.toNat_lt _ ?_)
      rw [Nat.succ_sub_one, ← place]
      exact ruled
    next =>
      have none : cnt = 0 := by omega
      subst none
      have before : (rest.length + 1) % (3 * third) = (3 * third - 1) % (3 * third) := by
        refine Nat.ModEq.add_right_cancel' 1 ?_
        rw [Nat.ModEq, Nat.sub_add_cancel (by omega), Nat.mod_self]
        exact column
      have place : 4 * (3 * third) / 3 =
          4 * (3 * third - 1) / 3 +
            (turn prev.toNat x.toNat (2 * (rest.length + 1) % 6)).length := by
        omega
      rw [if_neg room, if_neg room]
      refine ih x _ _ _ rfl before (by omega) (Ruled.turn _ prev.toNat_lt _ ?_)
      rw [← place]
      exact ruled.newline

structure Base64Text (src : Bytes) (bpl : Nat) (text : Bytes) : Prop where
  standard : text.filter (· ≠ newline) = standardBase64 src
  newlines : text.count newline = (src.length - 1) / bpl
  first : text.head? ≠ some newline
  last : text.getLast? ≠ some newline
  lines : 3 ∣ bpl → ∀ line ∈ (text.splitOn newline).dropLast, line.length = 4 * bpl / 3
  decoded : decodeBase64 text = src
  returned : (decodeBase64 text).length = src.length

theorem encodeBase64_text {src text : Bytes} {bpl : Nat} (wide : 2 ≤ bpl)
    (encoded : encodeBase64 src bpl = some text) : Base64Text src bpl text := by
  refine ⟨encodeBase64_plain encoded, encodeBase64_newlines wide encoded,
    encodeBase64_first encoded, encodeBase64_last encoded, fun groups => ?_,
    decodeBase64_encodeBase64 encoded, by rw [decodeBase64_encodeBase64 encoded]⟩
  obtain ⟨positive, rest, last, _, length, rfl⟩ := encodeBase64_split encoded
  have single : Ruled (4 * bpl / 3) (4 * (if src.length % bpl = 0 then bpl else src.length % bpl) / 3)
      (ending last.toNat (2 * (rest.length + 1) % 6)) :=
    ⟨_, [], List.splitOn_eq_singleton (ending_no_newline _ _), by simp, by simp⟩
  have within : (if src.length % bpl = 0 then bpl else src.length % bpl) ≤ bpl := by
    split
    next => exact Nat.le_refl _
    next => exact Nat.le_of_lt (Nat.mod_lt _ (by omega))
  have column : (rest.length + 1) % bpl =
      (if src.length % bpl = 0 then bpl else src.length % bpl) % bpl := by
    rw [← length]
    split
    next whole => rw [whole, Nat.mod_self]
    next => rw [Nat.mod_mod]
  obtain ⟨line, lines, split, full, complete⟩ := encodeLoop_ruled positive groups rest last _
    _ _ rfl column within single
  rw [split]
  cases lines with
  | nil => simp
  | cons next lines =>
    rw [List.dropLast_cons_cons]
    exact List.forall_mem_cons.2 ⟨complete (by simp), full⟩

end Ptp.Encoding
