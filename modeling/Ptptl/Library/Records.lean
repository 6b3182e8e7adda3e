import Mathlib.Data.List.Basic

set_option autoImplicit false

/-!
# Records read back

A loop reads one record after the other out of a state until there is none. It reads back what was
written exactly if each record is one that it reads right.
-/

namespace Records

variable {σ α β : Type}

/-- The records of a loop; a read outside of its text has no result, and neither has a loop that
does not end in `fuel` turns. -/
def readAll (next : σ → Option (Option (β × σ))) : Nat → σ → Option (List β)
  | 0, _ => none
  | fuel + 1, state =>
    match next state with
    | none => none
    | some none => some []
    | some (some (record, state)) => (readAll next fuel state).map (record :: ·)

structure Reads (next : σ → Option (Option (β × σ))) (record : α → β) (right : α → Prop)
    (ready : List α → σ → Prop) : Prop where
  stops {state : σ} : ready [] state → next state = some none
  reads {item : α} {items : List α} {state : σ} : ready (item :: items) state → right item →
    ∃ rest, next state = some (some (record item, rest)) ∧ ready items rest
  misses {item : α} {items : List α} {state : σ} : ready (item :: items) state → ¬ right item →
    ∀ rest, next state ≠ some (some (record item, rest))

variable {next : σ → Option (Option (β × σ))} {record : α → β} {right : α → Prop}
  {ready : List α → σ → Prop} {items : List α} {state : σ}

theorem Reads.all (reader : Reads next record right ready) (here : ready items state)
    (all : ∀ item ∈ items, right item) :
    readAll next (items.length + 1) state = some (items.map record) := by
  induction items generalizing state with
  | nil =>
    rw [List.length_nil, readAll, reader.stops here]
    rfl
  | cons item items ih =>
    obtain ⟨rest, read, later⟩ := reader.reads here (all item List.mem_cons_self)
    rw [List.length_cons, readAll, read]
    simp only [ih later fun other member => all other (List.mem_cons_of_mem _ member)]
    rfl

theorem Reads.only (reader : Reads next record right ready) (here : ready items state) {fuel : Nat}
    (back : readAll next fuel state = some (items.map record)) : ∀ item ∈ items, right item := by
  induction items generalizing state fuel with
  | nil => simp
  | cons item items ih =>
    cases fuel with
    | zero => simp [readAll] at back
    | succ fuel =>
      rw [List.map_cons, readAll] at back
      by_cases fine : right item
      next =>
        obtain ⟨rest, read, later⟩ := reader.reads here fine
        simp only [read, Option.map_eq_some_iff, List.cons.injEq, true_and, exists_eq_right] at back
        intro other member
        rcases List.mem_cons.1 member with rfl | member
        · exact fine
        · exact ih later back other member
      next =>
        -- the first record is another one
        cases read : next state with
        | none => simp [read] at back
        | some found =>
          cases found with
          | none => simp [read] at back
          | some found =>
            obtain ⟨first, rest⟩ := found
            simp only [read, Option.map_eq_some_iff, List.cons.injEq] at back
            obtain ⟨_, _, rfl, _⟩ := back
            exact absurd read (reader.misses here fine rest)

theorem Reads.iff (reader : Reads next record right ready) (here : ready items state) :
    (∃ fuel, readAll next fuel state = some (items.map record)) ↔ ∀ item ∈ items, right item := by
  constructor
  · rintro ⟨fuel, back⟩
    exact reader.only here back
  · intro all
    exact ⟨_, reader.all here all⟩

end Records
