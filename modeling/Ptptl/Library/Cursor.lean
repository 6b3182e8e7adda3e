import Mathlib.Data.List.Basic

set_option autoImplicit false

/-!
# Searches that go on behind their last result

A search takes the place of its last result, or nothing at the start, and gives a value with its
place, or none at the end. It may also be undefined.
-/

namespace Cursor

variable {α β : Type}

/-- The results of a search that is repeated up to its end. -/
inductive Enumerates (next : Option Nat → Option (Option (β × Nat))) :
    Option Nat → List (β × Nat) → Prop where
  | stop {last : Option Nat} (ends : next last = some none) : Enumerates next last []
  | step {last : Option Nat} {value : β} {place : Nat} {results : List (β × Nat)}
    (found : next last = some (some (value, place)))
    (rest : Enumerates next (some place) results) : Enumerates next last ((value, place) :: results)

theorem Enumerates.unique {next : Option Nat → Option (Option (β × Nat))} {last : Option Nat}
    {results others : List (β × Nat)} (first : Enumerates next last results)
    (second : Enumerates next last others) : results = others := by
  induction first generalizing others with
  | stop ends =>
    cases second with
    | stop _ => rfl
    | step found _ =>
      rw [ends] at found
      cases found
  | step found _ ih =>
    cases second with
    | stop ends =>
      rw [found] at ends
      cases ends
    | step found' rest =>
      rw [found] at found'
      cases found'
      rw [ih rest]

/-- What is accepted of a list, with the places; the first one is `place`. -/
def accepted (accept : α → Option β) (place : Nat) (list : List α) : List (β × Nat) :=
  (list.zipIdx place).filterMap fun found => (accept found.1).map fun value => (value, found.2)

variable {accept : α → Option β} {place : Nat} {head : α} {tail : List α} {value : β}

theorem accepted_some (accepts : accept head = some value) :
    accepted accept place (head :: tail) = (value, place) :: accepted accept (place + 1) tail := by
  rw [accepted, List.zipIdx_cons, List.filterMap_cons, accepts]
  rfl

theorem accepted_none (refuses : accept head = none) :
    accepted accept place (head :: tail) = accepted accept (place + 1) tail := by
  rw [accepted, List.zipIdx_cons, List.filterMap_cons, refuses]
  rfl

theorem accepted_guard (accepts : α → Bool) (place : Nat) (list : List α) :
    accepted (fun value => if accepts value then some value else none) place list =
      (list.zipIdx place).filter fun found => accepts found.1 := by
  rw [accepted, ← List.filterMap_eq_filter]
  apply List.filterMap_congr
  intro found _
  by_cases yes : accepts found.1 <;> simp [Option.guard, yes]

structure Resumes (next : Option Nat → Option (Option (β × Nat))) (accept : α → Option β)
    (list : List α) : Prop where
  first : next none = some (accepted accept 0 list).head?
  later : ∀ front head back, list = front ++ head :: back → (accept head).isSome →
    next (some front.length) = some (accepted accept (front.length + 1) back).head?

theorem Resumes.enumerates {next : Option Nat → Option (Option (β × Nat))} {list : List α}
    (resumes : Resumes next accept list) : Enumerates next none (accepted accept 0 list) := by
  have behind (back : List α) : ∀ front last, list = front ++ back →
      next last = some (accepted accept front.length back).head? →
      Enumerates next last (accepted accept front.length back) := by
    induction back with
    | nil => exact fun front last _ found => .stop found
    | cons head back ih =>
      intro front last whole found
      have whole' : list = (front ++ [head]) ++ back := by simpa using whole
      have places : (front ++ [head]).length = front.length + 1 := by simp
      cases accepts : accept head with
      | none =>
        rw [accepted_none accepts, ← places] at found ⊢
        exact ih (front ++ [head]) last whole' found
      | some value =>
        rw [accepted_some accepts] at found ⊢
        have more := resumes.later front head back whole (by simp [accepts])
        rw [← places] at more ⊢
        exact .step found (ih (front ++ [head]) _ whole' more)
  exact behind list [] none rfl resumes.first

structure Loop (loop : Option Nat → Nat → List α → Option (Option (β × Nat)))
    (accept : α → Option β) (good : α → Prop) : Prop where
  nil : ∀ last place, loop last place [] = some none
  accepts : ∀ place head tail value, good head → accept head = some value →
    loop none place (head :: tail) = some (some (value, place))
  refuses : ∀ place head tail, good head → accept head = none →
    loop none place (head :: tail) = loop none (place + 1) tail
  passes : ∀ last place head tail, good head → last ≠ place →
    loop (some last) place (head :: tail) = loop (some last) (place + 1) tail
  reaches : ∀ place head tail, good head → (accept head).isSome →
    loop (some place) place (head :: tail) = loop none (place + 1) tail

variable {loop : Option Nat → Nat → List α → Option (Option (β × Nat))} {good : α → Prop}

theorem Loop.first (isLoop : Loop loop accept good) : ∀ (list : List α) (place : Nat),
    (∀ value ∈ list, good value) →
    loop none place list = some (accepted accept place list).head? := by
  intro list
  induction list with
  | nil => exact fun place _ => isLoop.nil none place
  | cons head tail ih =>
    intro place all
    have here := all head List.mem_cons_self
    cases accepts : accept head with
    | none =>
      rw [isLoop.refuses place head tail here accepts, accepted_none accepts]
      exact ih _ fun value member => all value (List.mem_cons_of_mem _ member)
    | some value =>
      rw [isLoop.accepts place head tail value here accepts, accepted_some accepts]
      rfl

theorem Loop.behind (isLoop : Loop loop accept good) (front : List α) : ∀ place head back,
    (∀ value ∈ front ++ head :: back, good value) → (accept head).isSome →
    loop (some (place + front.length)) place (front ++ head :: back) =
      loop none (place + front.length + 1) back := by
  induction front with
  | nil =>
    intro place head back all accepts
    exact isLoop.reaches place head back (all head (by simp)) accepts
  | cons other front ih =>
    intro place head back all accepts
    have places : place + (other :: front).length = place + 1 + front.length := by
      simp only [List.length_cons]
      omega
    rw [List.cons_append, isLoop.passes _ _ _ _ (all other (by simp)) (by simp), places]
    exact ih (place + 1) head back
      (fun value member => all value (List.mem_cons_of_mem _ member)) accepts

theorem Loop.resumes (isLoop : Loop loop accept good) (list : List α)
    (all : ∀ value ∈ list, good value) : Resumes (fun last => loop last 0 list) accept list where
  first := isLoop.first list 0 all
  later := by
    rintro front head back rfl accepts
    have behind := isLoop.behind front 0 head back all accepts
    rw [Nat.zero_add] at behind
    rw [behind]
    exact isLoop.first back _ fun value member => all value (by simp [member])

end Cursor
