import Ptptl.Library.Chunked

set_option autoImplicit false

/-!
# The events of a source

What the read calls of a source still deliver, element by element, with the failures in between,
whatever the pieces are.
-/

namespace Chunked

variable {α σ : Type}

/-- A failure is `none`. -/
def Source.events : Source α → List (Option α)
  | [] => []
  | .data head tail :: rest => (head :: tail).map some ++ events rest
  | .failure :: rest => none :: events rest

def front : List (Option α) → List α
  | some value :: rest => value :: front rest
  | _ => []

@[simp] theorem front_append (values : List α) (rest : List (Option α)) :
    front (values.map some ++ rest) = values ++ front rest := by
  induction values with
  | nil => rfl
  | cons value values ih =>
    rw [List.map_cons, List.cons_append, front, ih]
    rfl

@[simp] theorem front_map (values : List α) : front (values.map some) = values := by
  simpa [front] using front_append values []

theorem front_split (events : List (Option α)) :
    ∃ rest, events = (front events).map some ++ rest ∧ front rest = [] := by
  induction events with
  | nil => exact ⟨[], rfl, rfl⟩
  | cons event events ih =>
    cases event with
    | none => exact ⟨none :: events, rfl, rfl⟩
    | some value =>
      obtain ⟨rest, whole, ended⟩ := ih
      refine ⟨rest, ?_, ended⟩
      conv => lhs; rw [whole]
      rfl

def Delivered (size : Nat) (events : List (Option α)) : Prop :=
  size ≤ (front events).length ∨ events = (front events).map some

theorem drop_split {skip : Nat} {values : List α} (enough : skip ≤ values.length)
    (rest : List (Option α)) :
    (values.map some ++ rest).drop skip = (values.drop skip).map some ++ rest := by
  rw [List.drop_append_of_le_length (by simpa using enough), List.map_drop]

theorem front_drop {skip : Nat} {events : List (Option α)}
    (enough : skip ≤ (front events).length) : front (events.drop skip) = (front events).drop skip := by
  obtain ⟨rest, whole, ended⟩ := front_split events
  have dropped := drop_split enough rest
  rw [← whole] at dropped
  rw [dropped, front_append, ended, List.append_nil]

theorem delivered_drop {skip : Nat} {events : List (Option α)}
    (enough : skip ≤ (front events).length) (size : Nat) :
    Delivered size (events.drop skip) ↔ Delivered (skip + size) events := by
  obtain ⟨rest, whole, ended⟩ := front_split events
  have dropped := drop_split enough rest
  rw [← whole] at dropped
  have finished : events.drop skip = ((front events).drop skip).map some ↔
      events = (front events).map some := by
    conv => rhs; lhs; rw [whole]
    rw [dropped, List.append_right_eq_self, List.append_right_eq_self]
  rw [Delivered, Delivered, front_drop enough, finished, List.length_drop]
  exact or_congr_left (by omega)

namespace Source

@[simp] theorem prepend_events (piece : List α) (source : Source α) :
    (prepend piece source).events = piece.map some ++ source.events := by
  cases piece <;> rfl

theorem Clean.events {source : Source α} (clean : source.Clean) :
    source.events = source.contents.map some := by
  unfold Clean at clean
  induction source with
  | nil => rfl
  | cons segment rest ih =>
    cases segment with
    | failure => simp [failures] at clean
    | data head tail =>
      rw [Source.events, contents, ih clean, List.map_append]

theorem front_length_le (source : Source α) :
    (front source.events).length ≤ source.contents.length := by
  induction source with
  | nil => exact Nat.le_refl 0
  | cons segment rest ih =>
    cases segment with
    | failure => exact Nat.zero_le _
    | data head tail =>
      rw [Source.events, front_append, contents, List.length_append, List.length_append]
      omega

def ofEvents : List (Option α) → Source α
  | [] => []
  | some value :: rest => .data value [] :: ofEvents rest
  | none :: rest => .failure :: ofEvents rest

@[simp] theorem ofEvents_events (events : List (Option α)) : (ofEvents events).events = events := by
  induction events with
  | nil => rfl
  | cons event events ih => cases event <;> simp [ofEvents, Source.events, ih]

theorem clean_of_events {source : Source α} {values : List α}
    (same : source.events = values.map some) : source.Clean ∧ source.contents = values := by
  induction source generalizing values with
  | nil =>
    rw [Source.events, eq_comm, List.map_eq_nil_iff] at same
    exact ⟨rfl, same.symm⟩
  | cons segment rest ih =>
    cases segment with
    | failure =>
      cases values with
      | nil => cases same
      | cons value values => simp [Source.events] at same
    | data head tail =>
      rw [Source.events, eq_comm, List.map_eq_append_iff] at same
      obtain ⟨first, others, rfl, here, later⟩ := same
      obtain ⟨clean, contents⟩ := ih later.symm
      have first' := (List.map_inj_right fun _ _ => Option.some.inj).1 here
      exact ⟨clean, by rw [Source.contents, contents, first']⟩

end Source

/-- A reader that takes the elements off a list of events, and fails where the list does. -/
structure Follows (read : σ → Nat → Option (List α) × σ) (events : σ → List (Option α)) : Prop where
  takes : ∀ {state size piece next}, read state size = (some piece, next) → 0 < size →
    events state = piece.map some ++ events next ∧ piece.length ≤ size ∧
      (piece = [] → events state = [])
  fails : ∀ {state size next}, read state size = (none, next) → 0 < size →
    events state = none :: events next

theorem Source.follows : Follows (@Source.read α) Source.events where
  takes := by
    intro source size piece next result positive
    cases source with
    | nil =>
      simp only [read, Prod.mk.injEq, Option.some.injEq] at result
      obtain ⟨rfl, rfl⟩ := result
      exact ⟨rfl, Nat.zero_le _, fun _ => rfl⟩
    | cons segment rest =>
      cases segment with
      | failure => simp [read] at result
      | data head tail =>
        obtain ⟨size, rfl⟩ := Nat.exists_eq_add_one_of_ne_zero (Nat.ne_of_gt positive)
        simp only [read, Prod.mk.injEq, Option.some.injEq] at result
        obtain ⟨rfl, rfl⟩ := result
        refine ⟨?_, ?_, by simp⟩
        · rw [prepend_events, ← List.append_assoc, ← List.map_append, List.cons_append,
            List.take_append_drop]
          rfl
        · rw [List.length_cons, List.length_take]
          exact Nat.succ_le_succ (Nat.min_le_left _ _)
  fails := by
    intro source size next result positive
    cases source with
    | nil => simp [read] at result
    | cons segment rest =>
      cases segment with
      | failure =>
        simp only [read, Prod.mk.injEq, true_and] at result
        exact result ▸ rfl
      | data head tail =>
        obtain ⟨size, rfl⟩ := Nat.exists_eq_add_one_of_ne_zero (Nat.ne_of_gt positive)
        simp [read] at result

section

variable {read : σ → Nat → Option (List α) × σ} {events : σ → List (Option α)}

theorem Follows.gather_some (follows : Follows read events) (size : Nat) : ∀ state : σ,
    Delivered size (events state) → ∃ next,
      gather read size state = (some ((front (events state)).take size), next) ∧
        events next = (events state).drop size := by
  induction size using Nat.strongRecOn with
  | ind size ih =>
    intro state delivered
    rw [gather]
    by_cases empty : size = 0
    · subst empty
      exact ⟨state, by simp, by simp⟩
    rw [if_neg empty]
    cases result : read state size with
    | mk first next =>
      cases first with
      | none =>
        have failed := follows.fails result (Nat.pos_of_ne_zero empty)
        rw [Delivered, failed] at delivered
        simp [front] at delivered
        omega
      | some piece =>
        obtain ⟨whole, bound, ended⟩ := follows.takes result (Nat.pos_of_ne_zero empty)
        cases piece with
        | nil =>
          have nothing := ended rfl
          refine ⟨next, by simp [nothing, front], ?_⟩
          rw [nothing, List.map_nil, List.nil_append] at whole
          rw [nothing, ← whole, List.drop_nil]
        | cons head tail =>
          rw [List.length_cons] at bound
          have later : Delivered (size - (tail.length + 1)) (events next) := by
            rw [Delivered, whole, front_append, List.length_append, List.map_append,
              List.append_cancel_left_eq] at delivered
            rw [List.length_cons] at delivered
            exact delivered.imp_left fun _ => by omega
          obtain ⟨last, gathered, rest⟩ := ih _ (by omega) next later
          have within : (head :: tail).length ≤ size := by simpa using bound
          refine ⟨last, ?_, ?_⟩
          · simp only [gathered, Option.map_some, whole, front_append]
            rw [List.take_append, List.take_of_length_le within, List.length_cons]
          · have taken : ((head :: tail).map some).drop size = [] := by
              apply List.drop_of_length_le
              rwa [List.length_map]
            rw [rest, whole, List.drop_append, taken, List.length_map, List.length_cons,
              List.nil_append]

theorem Follows.gather_none (follows : Follows read events) (size : Nat) : ∀ state : σ,
    ¬ Delivered size (events state) → ∃ next, gather read size state = (none, next) := by
  induction size using Nat.strongRecOn with
  | ind size ih =>
    intro state undelivered
    rw [gather]
    by_cases empty : size = 0
    · exact absurd (.inl (by omega)) undelivered
    rw [if_neg empty]
    cases result : read state size with
    | mk first next =>
      cases first with
      | none => exact ⟨next, rfl⟩
      | some piece =>
        obtain ⟨whole, bound, ended⟩ := follows.takes result (Nat.pos_of_ne_zero empty)
        cases piece with
        | nil => exact absurd (.inr (by rw [ended rfl]; rfl)) undelivered
        | cons head tail =>
          have later : ¬ Delivered (size - (tail.length + 1)) (events next) := by
            intro delivered
            apply undelivered
            rw [Delivered, whole, front_append, List.length_append, List.map_append,
              List.append_cancel_left_eq, List.length_cons]
            exact delivered.imp_left fun _ => by omega
          obtain ⟨last, gathered⟩ := ih _ (by omega) next later
          exact ⟨last, by simp only [gathered, Option.map_none]⟩

/-- What `gather` has taken when it ends, also by a failure. -/
def gathered (read : σ → Nat → Option (List α) × σ) (size : Nat) (state : σ) : List α :=
  if size = 0 then []
  else
    match read state size with
    | (some (head :: tail), next) => head :: tail ++ gathered read (size - (tail.length + 1)) next
    | _ => []
termination_by size

theorem gather_gathered {size : Nat} {state next : σ} {values : List α}
    (result : gather read size state = (some values, next)) : gathered read size state = values := by
  induction size using Nat.strongRecOn generalizing state values with
  | ind size ih =>
    rw [gather] at result
    rw [gathered]
    by_cases empty : size = 0
    · rw [if_pos empty, Prod.mk.injEq, Option.some.injEq] at result
      rw [if_pos empty]
      exact result.1
    rw [if_neg empty] at result ⊢
    cases first : read state size with
    | mk piece other =>
      rw [first] at result
      cases piece with
      | none => simp at result
      | some piece =>
        cases piece with
        | nil =>
          rw [Prod.mk.injEq, Option.some.injEq] at result
          exact result.1
        | cons head tail =>
          simp only [Prod.mk.injEq, Option.map_eq_some_iff] at result
          obtain ⟨⟨more, rest, rfl⟩, rfl⟩ := result
          simp only [ih (size - (tail.length + 1)) (by omega) (Prod.ext rest rfl)]

theorem Follows.gathered_eq (follows : Follows read events) (size : Nat) (state : σ) :
    gathered read size state = (front (events state)).take size := by
  induction size using Nat.strongRecOn generalizing state with
  | ind size ih =>
    rw [gathered]
    by_cases empty : size = 0
    · rw [if_pos empty, empty, List.take_zero]
    rw [if_neg empty]
    cases result : read state size with
    | mk first next =>
      cases first with
      | none => simp [follows.fails result (Nat.pos_of_ne_zero empty), front]
      | some piece =>
        obtain ⟨whole, bound, ended⟩ := follows.takes result (Nat.pos_of_ne_zero empty)
        cases piece with
        | nil => simp [ended rfl, front]
        | cons head tail =>
          rw [List.length_cons] at bound
          have within : (head :: tail).length ≤ size := by simpa using bound
          simp only [ih (size - (tail.length + 1)) (by omega) next, whole, front_append]
          rw [List.take_append, List.take_of_length_le within, List.length_cons]

end

end Chunked
