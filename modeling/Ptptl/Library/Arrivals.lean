import Ptptl.Library.Chunked

set_option autoImplicit false

/-! # The pieces in which a source arrives -/

namespace Chunked

variable {α σ τ : Type}

namespace Source

def available : Source α → Nat
  | .data _ tail :: _ => tail.length + 1
  | _ => 0

/-- What is left to deliver after `size` more elements. -/
def advance : Source α → Nat → Source α
  | source, 0 => source
  | [], _ + 1 => []
  | .failure :: rest, size + 1 => advance rest (size + 1)
  | .data _ tail :: rest, size + 1 =>
      if size < tail.length then prepend (tail.drop size) rest
      else advance rest (size - tail.length)

@[simp] theorem advance_zero (source : Source α) : source.advance 0 = source := by
  cases source with
  | nil => rfl
  | cons segment rest => cases segment <;> rfl

theorem advance_prepend (piece : List α) (source : Source α) (size : Nat) :
    (prepend piece source).advance size =
      if size < piece.length then prepend (piece.drop size) source
      else source.advance (size - piece.length) := by
  cases piece with
  | nil => simp [prepend]
  | cons head tail =>
    cases size with
    | zero => simp [prepend]
    | succ size => simp [prepend, advance]

theorem advance_advance (source : Source α) (first second : Nat) :
    (source.advance first).advance second = source.advance (first + second) := by
  induction source generalizing first with
  | nil =>
    cases first with
    | zero => simp
    | succ first =>
      rw [Nat.succ_add]
      cases second <;> rfl
  | cons segment rest ih =>
    cases first with
    | zero => simp
    | succ first =>
      rw [Nat.succ_add]
      cases segment with
      | failure => simpa only [advance, Nat.succ_add] using ih (first + 1)
      | data head tail =>
        simp only [advance]
        by_cases inside : first < tail.length
        · rw [if_pos inside, advance_prepend, List.length_drop, List.drop_drop]
          by_cases still : first + second < tail.length
          · rw [if_pos (by omega), if_pos still]
          · rw [if_neg (by omega), if_neg still]
            congr 1
            omega
        · rw [if_neg inside, if_neg (by omega), ih]
          congr 1
          omega

theorem read_available {source : Source α} (clean : source.Clean) {size : Nat} (positive : 0 < size) :
    source.read size =
      (some (source.contents.take (min size source.available)),
        source.advance (min size source.available)) := by
  match source, size with
  | [], size => simp [read, available]
  | .failure :: rest, size => simp [Clean, failures] at clean
  | .data head tail :: rest, size + 1 =>
    simp only [read, contents, available, Nat.add_min_add_right, List.cons_append,
      List.take_succ_cons, advance, Prod.mk.injEq, Option.some.injEq, List.cons.injEq, true_and]
    constructor
    · rw [List.take_append_of_le_length (Nat.min_le_right _ _)]
      exact List.take_eq_take_min
    · by_cases inside : size < tail.length
      · rw [Nat.min_eq_left (Nat.le_of_lt inside), if_pos inside]
      · rw [Nat.min_eq_right (Nat.le_of_not_lt inside), if_neg (Nat.lt_irrefl _), Nat.sub_self,
          List.drop_of_length_le (Nat.le_of_not_lt inside), advance_zero]
        rfl

theorem read_piece {source rest : Source α} {size : Nat} {piece : List α} (positive : 0 < size)
    (present : source.available ≠ 0) (result : source.read size = (some piece, rest)) :
    piece.length = min size source.available ∧ (piece.length < source.available →
      rest.available = source.available - piece.length) := by
  match source, size with
  | [], _ => exact absurd rfl present
  | .failure :: _, _ => exact absurd rfl present
  | .data head tail :: source, size + 1 =>
    simp only [read, Prod.mk.injEq, Option.some.injEq] at result
    obtain ⟨rfl, rfl⟩ := result
    simp only [available, List.length_cons, List.length_take, Nat.add_min_add_right, true_and]
    intro short
    cases left : tail.drop size with
    | nil =>
      rw [List.drop_eq_nil_iff] at left
      omega
    | cons next others =>
      have length := congrArg List.length left
      rw [List.length_drop, List.length_cons] at length
      simp only [prepend]
      omega

end Source

theorem gather_tracks {read : σ → Nat → Option (List α) × σ}
    {other : τ → Nat → Option (List α) × τ} {view : σ → τ}
    (tracks : ∀ state size, 0 < size → other (view state) size =
      ((read state size).1, view (read state size).2)) (size : Nat) (state : σ) :
    gather other size (view state) =
      ((gather read size state).1, view (gather read size state).2) := by
  induction size using Nat.strongRecOn generalizing state with
  | ind size ih =>
    rw [gather, gather]
    by_cases empty : size = 0
    · simp only [if_pos empty]
    · simp only [if_neg empty, tracks state size (Nat.pos_of_ne_zero empty)]
      cases read state size with
      | mk result next =>
        match result with
        | none => rfl
        | some [] => rfl
        | some (head :: tail) => simp only [ih (size - (tail.length + 1)) (by omega) next]

theorem Source.failures_advance (source : Source α) (size : Nat) :
    (source.advance size).failures ≤ source.failures := by
  induction source generalizing size with
  | nil => cases size <;> exact Nat.le_refl _
  | cons segment rest ih =>
    cases size with
    | zero => simp
    | succ size =>
      cases segment with
      | failure => exact Nat.le_succ_of_le (ih (size + 1))
      | data head tail =>
        simp only [advance, failures]
        split
        · simp
        · exact ih _

theorem Source.advance_clean {source : Source α} (clean : source.Clean) (size : Nat) :
    (source.advance size).Clean :=
  Nat.le_zero.1 (clean ▸ source.failures_advance size)

theorem Source.advance_contents {source : Source α} (clean : source.Clean) (size : Nat) :
    (source.advance size).contents = source.contents.drop size := by
  induction source generalizing size with
  | nil => cases size <;> rfl
  | cons segment rest ih =>
    cases size with
    | zero => simp
    | succ size =>
      cases segment with
      | failure => simp [Clean, failures] at clean
      | data head tail =>
        simp only [advance, contents, List.cons_append, List.drop_succ_cons]
        by_cases inside : size < tail.length
        · rw [if_pos inside, prepend_contents, List.drop_append_of_le_length (Nat.le_of_lt inside)]
        · rw [if_neg inside, ih clean, List.drop_append,
            List.drop_of_length_le (Nat.le_of_not_lt inside), List.nil_append]

theorem Source.gather_advance {source : Source α} (clean : source.Clean) (size : Nat) :
    gather Source.read size source =
      (some (source.contents.take size), source.advance size) := by
  induction size using Nat.strongRecOn generalizing source with
  | ind size ih =>
    rw [gather]
    by_cases empty : size = 0
    · simp [empty]
    rw [if_neg empty]
    cases size with
    | zero => exact absurd rfl empty
    | succ size =>
      cases source with
      | nil => simp [read, advance]
      | cons arrival rest =>
        cases arrival with
        | failure => simp [Clean, failures] at clean
        | data head tail =>
          rw [read_available clean (Nat.succ_pos size)]
          simp only [available, Nat.succ_eq_add_one, Nat.add_min_add_right, contents,
            List.cons_append, List.take_succ_cons]
          have first : ((tail ++ contents rest).take (min size tail.length)).length =
              min size tail.length := by
            rw [List.length_take, List.length_append]
            omega
          rw [first, ih _ (by omega) (advance_clean clean _), advance_advance,
            advance_contents clean]
          simp only [contents, List.cons_append, List.drop_succ_cons, Option.map_some,
            Prod.mk.injEq, Option.some.injEq, List.cons.injEq, true_and]
          constructor
          · rw [← List.take_add]
            congr 1
            omega
          · congr 1
            omega

end Chunked
