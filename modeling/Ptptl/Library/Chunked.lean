import Mathlib.Data.List.Basic

set_option autoImplicit false

/-!
# Chunked transfers

Sources deliver a byte sequence in pieces of the environment's choosing and sinks accept
prefixes of its choosing; both may fail at any call.
-/

namespace Chunked

variable {α σ : Type}

inductive Segment (α : Type) where
  | data (head : α) (tail : List α)
  | failure
deriving DecidableEq

abbrev Source (α : Type) := List (Segment α)

namespace Source

def prepend : List α → Source α → Source α
  | [], source => source
  | head :: tail, source => .data head tail :: source

def read : Source α → Nat → Option (List α) × Source α
  | [], _ => (some [], [])
  | .failure :: rest, _ => (none, rest)
  | source, 0 => (some [], source)
  | .data head tail :: rest, size + 1 =>
      (some (head :: tail.take size), prepend (tail.drop size) rest)

def contents : Source α → List α
  | [] => []
  | .data head tail :: rest => head :: tail ++ contents rest
  | .failure :: rest => contents rest

def failures : Source α → Nat
  | [] => 0
  | .data _ _ :: rest => failures rest
  | .failure :: rest => failures rest + 1

def Clean (source : Source α) : Prop := source.failures = 0

@[simp] theorem contents_nil : contents ([] : Source α) = [] := rfl

@[simp] theorem failures_nil : failures ([] : Source α) = 0 := rfl

@[simp] theorem prepend_contents (piece : List α) (source : Source α) :
    (prepend piece source).contents = piece ++ source.contents := by
  cases piece <;> rfl

@[simp] theorem prepend_failures (piece : List α) (source : Source α) :
    (prepend piece source).failures = source.failures := by
  cases piece <;> rfl

theorem read_some {source rest : Source α} {size : Nat} {piece : List α}
    (result : source.read size = (some piece, rest)) :
    piece ++ rest.contents = source.contents ∧ rest.failures = source.failures ∧
      piece.length ≤ size ∧ (piece = [] → 0 < size → source = []) := by
  match source, size with
  | [], _ =>
      simp only [read, Prod.mk.injEq, Option.some.injEq] at result
      obtain ⟨rfl, rfl⟩ := result
      simp
  | .failure :: _, _ => simp [read] at result
  | .data head tail :: source, 0 =>
      simp only [read, Prod.mk.injEq, Option.some.injEq] at result
      obtain ⟨rfl, rfl⟩ := result
      simp
  | .data head tail :: source, size + 1 =>
      simp only [read, Prod.mk.injEq, Option.some.injEq] at result
      obtain ⟨rfl, rfl⟩ := result
      refine ⟨?_, by simp [failures], ?_, by simp⟩
      · simp [contents, ← List.append_assoc]
      · rw [List.length_cons, List.length_take]
        exact Nat.succ_le_succ (Nat.min_le_left _ _)

theorem read_none {source rest : Source α} {size : Nat}
    (result : source.read size = (none, rest)) :
    rest.contents = source.contents ∧ rest.failures + 1 = source.failures := by
  match source, size with
  | [], _ => simp [read] at result
  | .failure :: _, _ =>
      simp only [read, Prod.mk.injEq, true_and] at result
      subst result
      exact ⟨rfl, rfl⟩
  | .data _ _ :: _, 0 => simp [read] at result
  | .data _ _ :: _, _ + 1 => simp [read] at result

end Source

/-- Call `read` until `size` elements have arrived, it delivers nothing, or it fails. -/
def gather (read : σ → Nat → Option (List α) × σ) (size : Nat) (state : σ) :
    Option (List α) × σ :=
  if size = 0 then (some [], state)
  else
    match read state size with
    | (none, next) => (none, next)
    | (some [], next) => (some [], next)
    | (some (head :: tail), next) =>
        let (more, last) := gather read (size - (tail.length + 1)) next
        (more.map (head :: tail ++ ·), last)
termination_by size

/-- A reader that, from good states, takes non-empty prefixes off a remaining sequence. -/
structure Delivers (read : σ → Nat → Option (List α) × σ) (remaining : σ → List α)
    (Good : σ → Prop) : Prop where
  step : ∀ state size, Good state → 0 < size → ∃ piece next,
    read state size = (some piece, next) ∧ piece ++ remaining next = remaining state ∧
      piece.length ≤ size ∧ (piece = [] → remaining state = []) ∧ Good next

theorem Delivers.gather {read : σ → Nat → Option (List α) × σ} {remaining : σ → List α}
    {Good : σ → Prop} (delivers : Delivers read remaining Good) (size : Nat) (state : σ)
    (good : Good state) : ∃ next,
      gather read size state = (some ((remaining state).take size), next) ∧
        remaining next = (remaining state).drop size ∧ Good next := by
  induction size using Nat.strongRecOn generalizing state with
  | ind size ih =>
    rw [Chunked.gather]
    by_cases none : size = 0
    · subst none
      exact ⟨state, by simp, by simp, good⟩
    obtain ⟨piece, next, result, split, bound, empty, kept⟩ :=
      delivers.step state size good (by omega)
    rw [if_neg none, result]
    cases piece with
    | nil =>
        have finished := empty rfl
        have rest : remaining next = [] := by simpa [finished] using split
        exact ⟨next, by simp [finished], by simp [finished, rest], kept⟩
    | cons head tail =>
        simp only [List.length_cons] at bound
        obtain ⟨last, more, left, fine⟩ :=
          ih (size - (tail.length + 1)) (by omega) next kept
        refine ⟨last, ?_, ?_, fine⟩
        · simp only [more, Option.map_some, Prod.mk.injEq, Option.some.injEq, and_true]
          have within : (head :: tail).length ≤ size := by simpa using bound
          rw [← split, List.take_append, List.take_of_length_le within, List.length_cons]
        · have within : (head :: tail).length ≤ size := by simpa using bound
          rw [left, ← split, List.drop_append, List.drop_of_length_le within, List.nil_append,
            List.length_cons]

theorem Source.gather_some {source rest : Source α} {size : Nat} {piece : List α}
    (result : gather Source.read size source = (some piece, rest)) :
    piece ++ rest.contents = source.contents ∧ rest.failures = source.failures ∧
      piece.length ≤ size ∧ (piece.length < size → rest = []) := by
  induction size using Nat.strongRecOn generalizing source piece with
  | ind size ih =>
    rw [gather] at result
    by_cases none : size = 0
    · rw [if_pos none] at result
      simp only [Prod.mk.injEq, Option.some.injEq] at result
      obtain ⟨rfl, rfl⟩ := result
      simp [none]
    rw [if_neg none] at result
    cases outcome : source.read size with
    | mk first next =>
      rw [outcome] at result
      cases first with
      | none => simp at result
      | some first =>
        obtain ⟨split, same, bound, empty⟩ := Source.read_some outcome
        cases first with
        | nil =>
          simp only [Prod.mk.injEq, Option.some.injEq] at result
          obtain ⟨rfl, rfl⟩ := result
          refine ⟨split, same, bound, ?_⟩
          intro _
          have ended := empty rfl (by omega)
          subst ended
          simpa [Source.read] using outcome.symm
        | cons head tail =>
          simp only [Prod.mk.injEq, Option.map_eq_some_iff] at result
          obtain ⟨⟨more, gathered, rfl⟩, rfl⟩ := result
          simp only [List.length_cons] at bound
          obtain ⟨rejoined, kept, within, drained⟩ :=
            ih (size - (tail.length + 1)) (by omega) (Prod.ext gathered rfl)
          refine ⟨?_, kept.trans same, ?_, ?_⟩
          · rw [List.append_assoc, rejoined, split]
          · simp only [List.length_append, List.length_cons]
            omega
          · intro short
            simp only [List.length_append, List.length_cons] at short
            exact drained (by omega)

theorem Source.gather_none {source rest : Source α} {size : Nat}
    (result : gather Source.read size source = (none, rest)) : rest.failures < source.failures := by
  induction size using Nat.strongRecOn generalizing source with
  | ind size ih =>
    rw [gather] at result
    by_cases none : size = 0
    · simp [none] at result
    rw [if_neg none] at result
    cases outcome : source.read size with
    | mk first next =>
      rw [outcome] at result
      cases first with
      | none =>
        simp only [Prod.mk.injEq, true_and] at result
        subst result
        have counted := (Source.read_none outcome).2
        omega
      | some first =>
        obtain ⟨-, same, bound, -⟩ := Source.read_some outcome
        cases first with
        | nil => simp at result
        | cons head tail =>
          simp only [Prod.mk.injEq, Option.map_eq_none_iff] at result
          obtain ⟨gathered, rfl⟩ := result
          simp only [List.length_cons] at bound
          rw [← same]
          exact ih (size - (tail.length + 1)) (by omega) (Prod.ext gathered rfl)

inductive Response where
  | accept (size : Nat)
  | refuse
deriving DecidableEq

structure Sink (α : Type) where
  accepted : List α
  plan : List Response
deriving DecidableEq

namespace Sink

def write (sink : Sink α) (data : List α) : Option Nat × Sink α :=
  match sink.plan with
  | [] => (some data.length, { sink with accepted := sink.accepted ++ data })
  | .accept size :: plan =>
      (some (min size data.length), ⟨sink.accepted ++ data.take size, plan⟩)
  | .refuse :: plan => (none, { sink with plan := plan })

def refusals (sink : Sink α) : Nat := sink.plan.count .refuse

structure Willing (sink : Sink α) : Prop where
  noRefusal : .refuse ∉ sink.plan
  noStall : .accept 0 ∉ sink.plan

theorem write_some {sink next : Sink α} {data : List α} {size : Nat}
    (result : sink.write data = (some size, next)) :
    size ≤ data.length ∧ next.accepted = sink.accepted ++ data.take size ∧
      next.refusals = sink.refusals := by
  obtain ⟨accepted, plan⟩ := sink
  match plan with
  | [] =>
      simp only [write, Prod.mk.injEq, Option.some.injEq] at result
      obtain ⟨rfl, rfl⟩ := result
      simp [refusals]
  | .accept limit :: plan =>
      simp only [write, Prod.mk.injEq, Option.some.injEq] at result
      obtain ⟨rfl, rfl⟩ := result
      refine ⟨Nat.min_le_right _ _, ?_, by simp [refusals]⟩
      rw [← List.take_eq_take_min]
  | .refuse :: plan => simp [write] at result

theorem Willing.write {sink : Sink α} (willing : sink.Willing) {data : List α}
    (present : data ≠ []) : ∃ size next,
      sink.write data = (some (size + 1), next) ∧ next.Willing := by
  obtain ⟨accepted, plan⟩ := sink
  have positive := List.length_pos_of_ne_nil present
  match plan, willing with
  | [], willing =>
      refine ⟨data.length - 1, ⟨accepted ++ data, []⟩, ?_, by simp, by simp⟩
      simp [Sink.write, Nat.sub_add_cancel positive]
  | .accept 0 :: _, ⟨_, noStall⟩ => simp at noStall
  | .accept (limit + 1) :: plan, ⟨noRefusal, noStall⟩ =>
      refine ⟨min (limit + 1) data.length - 1, ⟨accepted ++ data.take (limit + 1), plan⟩,
        ?_, ?_, ?_⟩
      · simp only [Sink.write, Prod.mk.injEq, Option.some.injEq, and_true]
        omega
      · exact fun member => noRefusal (List.mem_cons_of_mem _ member)
      · exact fun member => noStall (List.mem_cons_of_mem _ member)
  | .refuse :: _, ⟨noRefusal, _⟩ => simp at noRefusal

/-- Call `write` until everything is taken, it takes nothing, or it fails. -/
def pour (sink : Sink α) (data : List α) : Option Nat × Sink α :=
  if _present : data = [] then (some 0, sink)
  else
    match sink.write data with
    | (none, next) => (none, next)
    | (some 0, next) => (some 0, next)
    | (some (size + 1), next) =>
        let (more, last) := next.pour (data.drop (size + 1))
        (more.map (size + 1 + ·), last)
termination_by data.length
decreasing_by
  have := List.length_pos_of_ne_nil _present
  simp only [List.length_drop]
  omega

theorem pour_some {sink last : Sink α} {data : List α} {size : Nat}
    (result : sink.pour data = (some size, last)) :
    size ≤ data.length ∧ last.accepted = sink.accepted ++ data.take size ∧
      last.refusals = sink.refusals := by
  induction sink, data using pour.induct generalizing size last with
  | case1 sink =>
      simp only [pour, ↓reduceDIte, Prod.mk.injEq, Option.some.injEq] at result
      obtain ⟨rfl, rfl⟩ := result
      simp
  | case2 sink data present next refused =>
      rw [pour, dif_neg present, refused] at result
      simp at result
  | case3 sink data present next stalled =>
      rw [pour, dif_neg present, stalled] at result
      simp only [Prod.mk.injEq, Option.some.injEq] at result
      obtain ⟨rfl, rfl⟩ := result
      exact write_some stalled
  | case4 sink data present step next taken _ _ _ ih =>
      rw [pour, dif_neg present, taken] at result
      obtain ⟨bound, grown, same⟩ := write_some taken
      simp only [Prod.mk.injEq, Option.map_eq_some_iff] at result
      obtain ⟨⟨more, poured, rfl⟩, rfl⟩ := result
      obtain ⟨within, added, kept⟩ := ih (Prod.ext poured rfl)
      simp only [List.length_drop] at within
      refine ⟨by omega, ?_, kept.trans same⟩
      rw [added, grown, List.append_assoc, ← List.take_add]

theorem Willing.pour {sink : Sink α} (willing : sink.Willing) (data : List α) : ∃ last,
    sink.pour data = (some data.length, last) ∧
      last.accepted = sink.accepted ++ data ∧ last.Willing := by
  induction sink, data using pour.induct with
  | case1 sink => exact ⟨sink, by simp [Sink.pour], by simp, willing⟩
  | case2 sink data present next refused =>
      obtain ⟨size, rest, taken, _⟩ := willing.write present
      simp [refused] at taken
  | case3 sink data present next stalled =>
      obtain ⟨size, rest, taken, _⟩ := willing.write present
      simp [stalled] at taken
  | case4 sink data present step next taken _ _ _ ih =>
      obtain ⟨size, rest, again, kept⟩ := willing.write present
      rw [taken] at again
      obtain ⟨-, rfl⟩ := Prod.mk.injEq .. ▸ again
      obtain ⟨last, poured, added, fine⟩ := ih kept
      obtain ⟨bound, grown, -⟩ := write_some taken
      refine ⟨last, ?_, ?_, fine⟩
      · rw [Sink.pour, dif_neg present, taken]
        simp only [poured, List.length_drop, Option.map_some, Prod.mk.injEq, Option.some.injEq,
          and_true]
        omega
      · rw [added, grown, List.append_assoc, List.take_append_drop]

end Sink

end Chunked
