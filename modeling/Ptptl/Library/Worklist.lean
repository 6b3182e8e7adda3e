import Mathlib.Data.List.Basic

set_option autoImplicit false

/-!
# A worklist with a stack

Places are taken from a stack; a place that opens is done, and what lies in it goes on the stack.
-/

namespace Worklist

variable {α : Type} (opens : α → Option (List α))

/-- The places done, in order; `none` when the fuel ends first. -/
def walk : Nat → List α → List α → Option (List α)
  | _, [], done => some done
  | 0, _ :: _, _ => none
  | fuel + 1, place :: stack, done =>
    match opens place with
    | none => walk fuel stack done
    | some places => walk fuel (places ++ stack) (done ++ [place])

/-- What is done of the places on a stack, and of all that lies in them, when there is an end of
it. -/
inductive Visits : List α → List α → Prop where
  | nil : Visits [] []
  | closed {place : α} {stack done : List α} (closed : opens place = none)
    (rest : Visits stack done) : Visits (place :: stack) done
  | opened {place : α} {places below stack done : List α} (opened : opens place = some places)
    (inside : Visits places below) (rest : Visits stack done) :
    Visits (place :: stack) (place :: (below ++ done))

/-- `walk` where only so many places can be opened; with that, how many more can. -/
def walkWithin : Nat → Nat → List α → List α → Option (List α × Nat)
  | _, free, [], done => some (done, free)
  | 0, _, _ :: _, _ => none
  | fuel + 1, 0, _ :: stack, done => walkWithin fuel 0 stack done
  | fuel + 1, free + 1, place :: stack, done =>
    match opens place with
    | none => walkWithin fuel (free + 1) stack done
    | some places => walkWithin fuel free (places ++ stack) (done ++ [place])

variable {opens} {stack more done last : List α}

theorem Visits.append (visits : Visits opens stack done) (others : Visits opens more last) :
    Visits opens (stack ++ more) (done ++ last) := by
  induction visits with
  | nil => exact others
  | closed closed _ ih => exact .closed closed ih
  | opened opened inside _ _ ih =>
    rw [List.cons_append, List.cons_append, List.append_assoc]
    exact .opened opened inside ih

theorem Visits.walk_append (visits : Visits opens stack done) {result : List α → List α}
    (follows : ∃ enough, ∀ fuel ≥ enough, ∀ before,
      walk opens fuel more before = some (result before)) :
    ∃ enough, ∀ fuel ≥ enough, ∀ before,
      walk opens fuel (stack ++ more) before = some (result (before ++ done)) := by
  induction visits generalizing more result with
  | nil => simpa using follows
  | closed closed _ ih =>
    obtain ⟨enough, walks⟩ := ih follows
    refine ⟨enough + 1, fun fuel fueled before => ?_⟩
    obtain ⟨fuel, rfl⟩ := Nat.exists_eq_succ_of_ne_zero (show fuel ≠ 0 by omega)
    rw [List.cons_append, walk, closed]
    exact walks fuel (by omega) before
  | @opened place places below stack done opened _ _ inside ih =>
    obtain ⟨enough, walks⟩ := inside (ih follows)
    refine ⟨enough + 1, fun fuel fueled before => ?_⟩
    obtain ⟨fuel, rfl⟩ := Nat.exists_eq_succ_of_ne_zero (show fuel ≠ 0 by omega)
    rw [List.cons_append, walk, opened]
    simp only
    rw [walks fuel (by omega)]
    simp

theorem Visits.walk_correct (visits : Visits opens stack done) :
    ∃ enough, ∀ fuel ≥ enough, walk opens fuel stack [] = some done := by
  have follows : ∃ enough, ∀ fuel ≥ enough, ∀ before : List α,
      walk opens fuel [] before = some before :=
    ⟨0, fun fuel _ before => by cases fuel <;> rfl⟩
  obtain ⟨enough, walks⟩ := visits.walk_append follows
  refine ⟨enough, fun fuel fueled => ?_⟩
  simpa using walks fuel fueled []

theorem Visits.unique (visits : Visits opens stack done) (others : Visits opens stack last) :
    done = last := by
  obtain ⟨enough, walks⟩ := visits.walk_correct
  obtain ⟨enough', walks'⟩ := others.walk_correct
  have first := walks (max enough enough') (Nat.le_max_left _ _)
  rw [walks' _ (Nat.le_max_right _ _)] at first
  exact (Option.some.inj first).symm

theorem walk_extends {fuel : Nat} (walked : walk opens fuel stack done = some last) :
    stack.length ≤ fuel ∧ done <+: last := by
  induction fuel generalizing stack done with
  | zero =>
    cases stack with
    | nil => exact ⟨Nat.le_refl _, Option.some.inj walked ▸ List.prefix_rfl⟩
    | cons place stack => contradiction
  | succ fuel ih =>
    cases stack with
    | nil => exact ⟨Nat.zero_le _, Option.some.inj walked ▸ List.prefix_rfl⟩
    | cons place stack =>
      rw [walk] at walked
      split at walked
      next =>
        obtain ⟨short, extends_⟩ := ih walked
        exact ⟨Nat.succ_le_succ short, extends_⟩
      next =>
        obtain ⟨short, extends_⟩ := ih walked
        rw [List.length_append] at short
        refine ⟨?_, (List.prefix_append _ _).trans extends_⟩
        rw [List.length_cons]
        omega

theorem walkWithin_none {fuel : Nat} (short : stack.length ≤ fuel) :
    walkWithin opens fuel 0 stack done = some (done, 0) := by
  induction stack generalizing fuel with
  | nil => cases fuel <;> rfl
  | cons place stack ih =>
    obtain ⟨fuel, rfl⟩ := Nat.exists_eq_succ_of_ne_zero (Nat.ne_zero_of_lt short)
    exact ih (Nat.le_of_succ_le_succ short)

theorem walkWithin_correct {fuel : Nat} (free : Nat)
    (walked : walk opens fuel stack done = some last) :
    walkWithin opens fuel free stack done =
      some (last.take (done.length + free), free - (last.length - done.length)) := by
  induction fuel generalizing stack done free with
  | zero =>
    cases stack with
    | nil =>
      obtain rfl := Option.some.inj walked
      rw [walkWithin, Nat.sub_self, Nat.sub_zero, List.take_of_length_le (Nat.le_add_right _ _)]
    | cons place stack => contradiction
  | succ fuel ih =>
    cases stack with
    | nil =>
      obtain rfl := Option.some.inj walked
      rw [walkWithin, Nat.sub_self, Nat.sub_zero, List.take_of_length_le (Nat.le_add_right _ _)]
    | cons place stack =>
      have short := (walk_extends walked).1
      rw [walk] at walked
      split at walked
      next closed =>
        cases free with
        | zero => exact ih 0 walked
        | succ free =>
          rw [walkWithin, closed]
          exact ih _ walked
      next places opened =>
        have extends_ := (walk_extends walked).2
        have longer := extends_.length_le
        rw [List.length_append, List.length_singleton] at longer
        cases free with
        | zero =>
          have front : last.take done.length = done :=
            (List.prefix_iff_eq_take.1 ((List.prefix_append _ _).trans extends_)).symm
          rw [walkWithin, walkWithin_none (Nat.le_of_succ_le_succ short), Nat.add_zero, front,
            Nat.zero_sub]
        | succ free =>
          rw [walkWithin, opened]
          simp only
          rw [ih free walked, List.length_append, List.length_singleton]
          congr 2
          · congr 1
            omega
          · omega

end Worklist
