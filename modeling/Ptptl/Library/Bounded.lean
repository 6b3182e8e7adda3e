import Mathlib.Data.List.Basic

set_option autoImplicit false

/-!
# Blocks of a fixed size

A call that gets a place in a block and a length stays inside of the block or it faults.
-/

namespace Bounded

variable {α β : Type}

inductive Fault where
  | outside
  | negative
  -- an int that leaves its range, before anything is done with it
  | overflow
deriving DecidableEq

/-- A call with the address of `offset` in a block, for `count` cells. -/
def access (size offset count : Int) : Except Fault Unit :=
  if count < 0 then .error .negative
  else if offset < 0 ∨ size < offset + count then .error .outside
  else .ok ()

def orOverflow : Option α → Except Fault α
  | some value => .ok value
  | none => .error .overflow

/-- A block after `data` has been stored at its start. -/
def store (block data : List α) : Except Fault (List α) :=
  if data.length ≤ block.length then .ok (data ++ block.drop data.length) else .error .outside

def print (size : Nat) (text more : List α) : Except Fault (List α) := do
  access size text.length ((more.length : Int) + 1)
  return text ++ more

def Inside (result : Except Fault α) : Prop := ∀ fault, result = .error fault → fault = .overflow

theorem access_inside {size offset count : Int} (low : 0 ≤ offset) (positive : 0 ≤ count)
    (fits : offset + count ≤ size) : access size offset count = .ok () := by
  rw [access, if_neg (by omega), if_neg (by omega)]

theorem access_front {size count : Int} (positive : 0 ≤ count) (fits : count ≤ size) :
    access size 0 count = .ok () :=
  access_inside (Int.le_refl 0) positive (by omega)

theorem access_outside {size offset count : Int} (positive : 0 ≤ count)
    (large : size < offset + count) : access size offset count = .error .outside := by
  rw [access, if_neg (by omega), if_pos (.inr large)]

theorem access_negative {size offset count : Int} (negative : count < 0) :
    access size offset count = .error .negative :=
  if_pos negative

@[simp] theorem orOverflow_some (value : α) : orOverflow (some value) = .ok value := rfl

@[simp] theorem orOverflow_none : orOverflow (none : Option α) = .error .overflow := rfl

theorem orOverflow_ok {value : Option α} {result : α} :
    orOverflow value = .ok result ↔ value = some result := by
  cases value <;> simp

theorem inside_orOverflow (value : Option α) : Inside (orOverflow value) := by
  intro fault failed
  cases value with
  | none => exact (Except.error.inj failed).symm
  | some value => contradiction

theorem inside_ok (value : α) : Inside (.ok value) := by
  intro fault failed
  contradiction

theorem Inside.bind {first : Except Fault α} {next : α → Except Fault β} (inside : Inside first)
    (later : ∀ value, first = .ok value → Inside (next value)) : Inside (first.bind next) := by
  cases first with
  | error fault =>
    intro other failed
    exact inside other (congrArg Except.error (Except.error.inj failed))
  | ok value => exact later value rfl

theorem print_ok {size : Nat} {text more result : List α} : print size text more = .ok result ↔
    (text ++ more).length < size ∧ result = text ++ more := by
  rw [List.length_append]
  by_cases fits : text.length + more.length < size
  next =>
    have inside : access (size : Int) text.length ((more.length : Int) + 1) = .ok () :=
      access_inside (by omega) (by omega) (by omega)
    simp only [print, inside, bind, Except.bind, pure, Except.pure, Except.ok.injEq, fits, true_and]
    exact eq_comm
  next =>
    have outside : access (size : Int) text.length ((more.length : Int) + 1) = .error .outside :=
      access_outside (by omega) (by omega)
    simp [print, outside, bind, Except.bind, fits]

theorem foldlM_print_ok {size : Nat} (piece : β → List α) (items : List β) {text result : List α}
    (started : text.length < size) :
    items.foldlM (fun text item => print size text (piece item)) text = .ok result ↔
      (text ++ items.flatMap piece).length < size ∧ result = text ++ items.flatMap piece := by
  induction items generalizing text with
  | nil =>
    simp only [List.foldlM_nil, pure, Except.pure, Except.ok.injEq, List.flatMap_nil,
      List.append_nil, started, true_and]
    exact eq_comm
  | cons item items ih =>
    rw [List.foldlM_cons, List.flatMap_cons, ← List.append_assoc]
    by_cases fits : (text ++ piece item).length < size
    next =>
      have printed : print size text (piece item) = .ok (text ++ piece item) :=
        print_ok.2 ⟨fits, rfl⟩
      simp only [printed, bind, Except.bind]
      exact ih fits
    next =>
      have large : ¬ (text ++ piece item ++ items.flatMap piece).length < size := by
        rw [List.length_append]
        omega
      simp only [large, false_and, iff_false]
      intro made
      cases printed : print size text (piece item) with
      | error fault => simp [printed, bind, Except.bind] at made
      | ok more => exact fits (print_ok.1 printed).1

/-- A block after `data` has been written at `offset`. -/
def put (block : List α) (offset : Nat) (data : List α) : Except Fault (List α) := do
  access block.length offset data.length
  return block.take offset ++ data ++ block.drop (offset + data.length)

def fill (block : List α) (offset : Nat) : List (List α) → Except Fault (List α × Nat)
  | [] => .ok (block, offset)
  | piece :: pieces => do
    let block ← put block offset piece
    fill block (offset + piece.length) pieces

theorem put_ok {block data result : List α} {offset : Nat} : put block offset data = .ok result ↔
    offset + data.length ≤ block.length ∧
      result = block.take offset ++ data ++ block.drop (offset + data.length) := by
  by_cases fits : offset + data.length ≤ block.length
  next =>
    have inside : access (block.length : Int) offset data.length = .ok () :=
      access_inside (by omega) (by omega) (by omega)
    simp only [put, inside, bind, Except.bind, pure, Except.pure, Except.ok.injEq, fits, true_and]
    exact eq_comm
  next =>
    have outside : access (block.length : Int) offset data.length = .error .outside :=
      access_outside (by omega) (by omega)
    simp [put, outside, bind, Except.bind, fits]

theorem put_front {front rest data result : List α} :
    put (front ++ rest) front.length data = .ok result ↔
      data.length ≤ rest.length ∧ result = front ++ data ++ rest.drop data.length := by
  have kept : (front ++ rest).take front.length = front := List.take_left
  have behind : (front ++ rest).drop (front.length + data.length) = rest.drop data.length := by
    rw [List.drop_append]
    simp
  rw [put_ok, kept, behind, List.length_append]
  constructor
  · exact fun written => ⟨by omega, written.2⟩
  · exact fun fits => ⟨by omega, fits.2⟩

theorem fill_front {pieces : List (List α)} {front rest : List α} {result : List α × Nat} :
    fill (front ++ rest) front.length pieces = .ok result ↔
      pieces.flatten.length ≤ rest.length ∧
        result = (front ++ pieces.flatten ++ rest.drop pieces.flatten.length,
          front.length + pieces.flatten.length) := by
  induction pieces generalizing front rest with
  | nil =>
    simp only [fill, Except.ok.injEq, List.flatten_nil, List.length_nil, Nat.zero_le, true_and,
      List.append_nil, List.drop_zero, Nat.add_zero]
    exact eq_comm
  | cons piece pieces ih =>
    rw [List.flatten_cons, List.length_append]
    by_cases fits : piece.length ≤ rest.length
    next =>
      have here : put (front ++ rest) front.length piece =
          .ok (front ++ piece ++ rest.drop piece.length) := put_front.2 ⟨fits, rfl⟩
      have more := @ih (front ++ piece) (rest.drop piece.length)
      rw [List.length_append, List.length_drop, List.drop_drop] at more
      have turn : fill (front ++ rest) front.length (piece :: pieces) =
          fill (front ++ piece ++ rest.drop piece.length) (front.length + piece.length) pieces := by
        rw [fill, here]
        rfl
      rw [turn, more, Nat.add_assoc, ← List.append_assoc front]
      constructor
      · exact fun done => ⟨by omega, done.2⟩
      · exact fun done => ⟨by omega, done.2⟩
    next =>
      have large : ¬ piece.length + pieces.flatten.length ≤ rest.length := by omega
      simp only [large, false_and, iff_false]
      intro filled
      cases here : put (front ++ rest) front.length piece with
      | error fault => simp [fill, here, bind, Except.bind] at filled
      | ok block => exact fits (put_front.1 here).1

end Bounded
