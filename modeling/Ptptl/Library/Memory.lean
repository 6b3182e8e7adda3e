import Mathlib.Data.List.Basic
import Mathlib.Data.List.Induction
import Mathlib.Data.List.Count

set_option autoImplicit false

/-!
# Memory and a pointer that writes backwards

Memory is a function of addresses; what a call loads and stores is recorded in order, so that
statements about overlapping buffers can be made of it.
-/

namespace Memory

variable {α : Type}

inductive Access where
  | load (position : Int)
  | store (position : Int)
deriving DecidableEq

/-- Memory with the accesses made so far, latest first, and the pointer `d`. -/
structure Writer (α : Type) where
  cells : Int → α
  accesses : List Access
  d : Int

def Writer.start (cells : Int → α) (d : Int) : Writer α :=
  { cells := cells, accesses := [], d := d }

/-- `*d-- = value`. -/
def Writer.put (writer : Writer α) (value : α) : Writer α :=
  { cells := fun position => if position = writer.d then value else writer.cells position
    accesses := .store writer.d :: writer.accesses
    d := writer.d - 1 }

def Writer.get (writer : Writer α) (position : Int) : α × Writer α :=
  (writer.cells position, { writer with accesses := .load position :: writer.accesses })

def Writer.puts (writer : Writer α) : List α → Writer α
  | [] => writer
  | value :: rest => (writer.puts rest).put value

@[simp] theorem Writer.start_d (cells : Int → α) (d : Int) : (Writer.start cells d).d = d := rfl

@[simp] theorem Writer.put_d (writer : Writer α) (value : α) : (writer.put value).d = writer.d - 1 :=
  rfl

@[simp] theorem Writer.get_d (writer : Writer α) (position : Int) :
    (writer.get position).2.d = writer.d := rfl

theorem Writer.puts_d (writer : Writer α) (values : List α) :
    (writer.puts values).d = writer.d - values.length := by
  induction values with
  | nil => simp [puts]
  | cons value rest ih =>
    rw [puts, put_d, ih, List.length_cons]
    omega

/-- What lies at `src`, from the last of `count` cells to the first. -/
def backwards (cells : Int → α) (src : Int) : Nat → List α
  | 0 => []
  | count + 1 => cells (src + count) :: backwards cells src count

@[simp] theorem backwards_length (cells : Int → α) (src : Int) (count : Nat) :
    (backwards cells src count).length = count := by
  induction count with
  | zero => rfl
  | succ count ih => rw [backwards, List.length_cons, ih]

def Holds (cells : Int → α) (src : Int) (values : List α) : Prop :=
  ∀ index (inside : index < values.length), cells (src + index) = values[index]

theorem Holds.backwards {cells : Int → α} {src : Int} {values : List α}
    (holds : Holds cells src values) : backwards cells src values.length = values.reverse := by
  induction values using List.reverseRecOn with
  | nil => rfl
  | append_singleton values last ih =>
    have before : Holds cells src values := by
      intro index inside
      have value := holds index (by rw [List.length_append]; omega)
      rwa [List.getElem_append_left inside] at value
    have end_ := holds values.length (by simp)
    rw [List.length_append, List.length_singleton, Memory.backwards, ih before,
      List.reverse_append, List.reverse_singleton, List.singleton_append]
    simpa using end_

theorem Holds.range {cells : Int → α} {start : Int} {text back : List α}
    (holds : Holds cells start (text ++ back)) :
    ((List.range text.length).map fun index => cells (start + (index : Nat))) = text := by
  refine List.ext_getElem (by simp) fun index inside _ => ?_
  have within : index < text.length := by simpa using inside
  rw [List.getElem_map, List.getElem_range, holds index (by rw [List.length_append]; omega),
    List.getElem_append_left within]

/-- Nothing but the positions from `d` to `last` has been stored to, and those once each. -/
def Stored (last : Int) (writer : Writer α) : Prop :=
  writer.d ≤ last ∧ ∀ position, writer.accesses.count (.store position) =
    if writer.d < position ∧ position ≤ last then 1 else 0

theorem Stored.start (cells : Int → α) (last : Int) : Stored last (Writer.start cells last) := by
  refine ⟨Int.le_refl _, fun position => ?_⟩
  have none : ¬ (last < position ∧ position ≤ last) := by omega
  simp [Writer.start, none]

theorem Stored.put {last : Int} {writer : Writer α} (stored : Stored last writer) (value : α) :
    Stored last (writer.put value) := by
  obtain ⟨below, once⟩ := stored
  refine ⟨by rw [Writer.put_d]; omega, fun position => ?_⟩
  rw [Writer.put, List.count_cons, once position]
  by_cases same : position = writer.d
  next =>
    subst same
    have inside : writer.d - 1 < writer.d ∧ writer.d ≤ last := ⟨by omega, below⟩
    simp [inside]
  next =>
    have other : ¬ writer.d = position := fun h => same h.symm
    have either : (writer.d - 1 < position ∧ position ≤ last) ↔
        writer.d < position ∧ position ≤ last := by omega
    have kept : (Access.store writer.d == Access.store position) = false := by simp [other]
    simp only [kept, either, Bool.false_eq_true, if_false, Nat.add_zero]

theorem Stored.get {last : Int} {writer : Writer α} (stored : Stored last writer) (position : Int) :
    Stored last (writer.get position).2 := by
  refine ⟨stored.1, fun other => ?_⟩
  rw [Writer.get_d, ← stored.2 other]
  simp [Writer.get]

theorem Stored.puts {last : Int} {writer : Writer α} (stored : Stored last writer)
    (values : List α) : Stored last (writer.puts values) := by
  induction values with
  | nil => exact stored
  | cons value rest ih => exact ih.put value

def ReadFirst (accesses : List Access) : Prop :=
  accesses.Pairwise fun later earlier =>
    ∀ position, later = .load position → earlier ≠ .store position

/-- `text` lies from behind `d` to `last`, all else is as it was, and of the `size` cells at `src`
those from `unread` on have been loaded, before anything was stored there. -/
structure Written (cells : Int → α) (src last : Int) (size unread : Nat) (text : List α)
    (writer : Writer α) : Prop where
  stored : Stored last writer
  cursor : writer.d + text.length = last
  text : Holds writer.cells (writer.d + 1) text
  kept : ∀ position, position ≤ writer.d ∨ last < position →
    writer.cells position = cells position
  loaded : ∀ position, writer.accesses.count (.load position) =
    if src + unread ≤ position ∧ position < src + size then 1 else 0
  readFirst : ReadFirst writer.accesses

namespace Written

variable {cells : Int → α} {src last : Int} {size unread : Nat} {text : List α}
  {writer : Writer α}

theorem start (cells : Int → α) (src last : Int) (size : Nat) :
    Written cells src last size size [] (Writer.start cells last) where
  stored := Stored.start cells last
  cursor := by simp [Writer.start]
  text := fun index inside => absurd inside (by simp)
  kept := fun _ _ => rfl
  loaded := by
    intro position
    have none : ¬ (src + size ≤ position ∧ position < src + size) := by omega
    simp [Writer.start, none]
  readFirst := List.Pairwise.nil

theorem put (written : Written cells src last size unread text writer) (value : α) :
    Written cells src last size unread (value :: text) (writer.put value) where
  stored := written.stored.put value
  cursor := by
    have cursor := written.cursor
    rw [Writer.put_d, List.length_cons]
    omega
  text := by
    intro index inside
    cases index with
    | zero => simp [Writer.put]
    | succ index =>
      have old := written.text index (by simpa using inside)
      have place : writer.d - 1 + 1 + ((index + 1 : Nat) : Int) = writer.d + 1 + index := by omega
      have above : writer.d + 1 + (index : Int) ≠ writer.d := by omega
      simp only [Writer.put_d, place]
      simp [Writer.put, above, old]
  kept := by
    intro position outside
    rw [Writer.put_d] at outside
    have below := written.stored.1
    have other : position ≠ writer.d := by omega
    rw [← written.kept position (by omega)]
    simp [Writer.put, other]
  loaded := by
    intro position
    rw [← written.loaded position]
    simp [Writer.put]
  readFirst := List.pairwise_cons.2 ⟨fun _ _ _ load => by simp at load, written.readFirst⟩

theorem puts (written : Written cells src last size unread text writer) (values : List α) :
    Written cells src last size unread (values ++ text) (writer.puts values) := by
  induction values with
  | nil => exact written
  | cons value rest ih => exact ih.put value

theorem get (written : Written cells src last size (unread + 1) text writer)
    (within : unread < size) (clear : src + unread ≤ writer.d ∨ last < src + unread) :
    Written cells src last size unread text (writer.get (src + unread)).2 where
  stored := written.stored.get _
  cursor := written.cursor
  text := written.text
  kept := written.kept
  loaded := by
    intro position
    simp only [Writer.get]
    rw [List.count_cons, written.loaded position]
    by_cases same : position = src + unread
    next =>
      subst same
      have fresh : ¬ (src + ((unread + 1 : Nat) : Int) ≤ src + unread ∧
          src + (unread : Int) < src + size) := by omega
      have inside : src + (unread : Int) ≤ src + unread ∧ src + (unread : Int) < src + size := by
        omega
      rw [if_neg fresh, if_pos inside]
      simp
    next =>
      have other : ¬ src + (unread : Int) = position := fun h => same h.symm
      have either : (src + ((unread + 1 : Nat) : Int) ≤ position ∧ position < src + size) ↔
          src + (unread : Int) ≤ position ∧ position < src + size := by omega
      simp only [either]
      simp [other]
  readFirst := by
    refine List.pairwise_cons.2 ⟨fun earlier member position load => ?_, written.readFirst⟩
    rintro rfl
    injection load with load
    subst load
    have positive := List.count_pos_iff.2 member
    have outside : ¬ (writer.d < src + unread ∧ src + (unread : Int) ≤ last) := by omega
    rw [written.stored.2, if_neg outside] at positive
    exact absurd positive (Nat.lt_irrefl 0)

theorem get_value (written : Written cells src last size (unread + 1) text writer)
    (clear : src + unread ≤ writer.d ∨ last < src + unread) :
    (writer.get (src + unread)).1 = cells (src + unread) :=
  written.kept _ clear

end Written

end Memory
