import Ptptl.Library.Chunked

set_option autoImplicit false

/-!
# Every read, and one write for each

What a source delivers to reads of one size, and what a sink makes of pieces that are written with
one call each.
-/

namespace Chunked

variable {α : Type}

/-- What `gather` puts in a buffer, also where a read fails. -/
def filled {σ : Type} (read : σ → Nat → Option (List α) × σ) (size : Nat) (state : σ) : List α :=
  if size = 0 then []
  else
    match read state size with
    | (some (head :: tail), next) => head :: tail ++ filled read (size - (tail.length + 1)) next
    | _ => []
termination_by size

theorem filled_length {σ : Type} {read : σ → Nat → Option (List α) × σ}
    (bounded : ∀ state size piece next, read state size = (some piece, next) → piece.length ≤ size)
    (size : Nat) (state : σ) : (filled read size state).length ≤ size := by
  induction size using Nat.strongRecOn generalizing state with
  | ind size ih =>
    rw [filled]
    split
    next => exact Nat.zero_le _
    next =>
      split
      next head tail next piece =>
        have within := bounded _ _ _ _ piece
        have rest := ih (size - (tail.length + 1)) (by omega) next
        rw [List.length_cons] at within
        rw [List.length_append, List.length_cons]
        omega
      next => exact Nat.zero_le _

theorem gather_keeps {σ τ : Type} {read : σ → Nat → Option (List α) × σ} {keep : σ → τ}
    (step : ∀ state size, keep (read state size).2 = keep state) (size : Nat) (state : σ) :
    keep (gather read size state).2 = keep state := by
  induction size using Nat.strongRecOn generalizing state with
  | ind size ih =>
    rw [gather]
    split
    next => rfl
    next =>
      have kept := step state size
      split
      next next piece => rw [← kept, piece]
      next next piece => rw [← kept, piece]
      next head tail next piece =>
        rw [← kept, piece]
        exact ih _ (by omega) next

theorem Source.read_shrinks {source rest : Source α} {size : Nat} {head : α} {tail : List α}
    (read : source.read size = (some (head :: tail), rest)) :
    rest.contents.length < source.contents.length := by
  rw [← (Source.read_some read).1]
  simp only [List.length_append, List.length_cons]
  omega

def Source.drain (size : Nat) (source : Source α) : List (List α) × Source α :=
  match _read : source.read size with
  | (some (head :: tail), rest) =>
    let (pieces, last) := drain size rest
    ((head :: tail) :: pieces, last)
  | (_, rest) => ([], rest)
termination_by source.contents.length
decreasing_by exact Source.read_shrinks _read

namespace Source

variable {size : Nat}

theorem drain_cons {source rest : Source α} {head : α} {tail : List α}
    (read : source.read size = (some (head :: tail), rest)) :
    source.drain size = ((head :: tail) :: (rest.drain size).1, (rest.drain size).2) := by
  rw [drain]
  split
  next head' tail' rest' read' =>
    rw [read] at read'
    simp only [Prod.mk.injEq, Option.some.injEq, List.cons.injEq] at read'
    obtain ⟨⟨rfl, rfl⟩, rfl⟩ := read'
    rfl
  next result last other read' =>
    exact absurd (congrArg Prod.fst (read'.symm.trans read)) (other head tail)

theorem drain_stop {source rest : Source α} {result : Option (List α)}
    (read : source.read size = (result, rest)) (stop : result = none ∨ result = some []) :
    source.drain size = ([], rest) := by
  rw [drain]
  split
  next head tail rest' read' =>
    rw [read] at read'
    simp only [Prod.mk.injEq] at read'
    rcases stop with rfl | rfl
    · exact absurd read'.1 (by simp)
    · exact absurd read'.1 (by simp)
  next result' rest' read' =>
    rw [read] at read'
    simp only [Prod.mk.injEq] at read'
    rw [read'.2]

theorem drain_correct (source : Source α) (positive : 0 < size) :
    (source.Clean → (source.drain size).1.flatten = source.contents) ∧
      (¬ source.Clean → (source.drain size).2.failures < source.failures) ∧
      (source.drain size).2.failures ≤ source.failures ∧
      ∀ piece ∈ (source.drain size).1, piece ≠ [] := by
  induction length : source.contents.length using Nat.strongRecOn generalizing source with
  | ind count ih =>
    cases read : source.read size with
    | mk result rest =>
      cases result with
      | none =>
        have failed := (read_none read).2
        rw [drain_stop read (.inl rfl)]
        refine ⟨?_, fun _ => by simp only; omega, by simp only; omega, by simp⟩
        intro clean
        unfold Clean at clean
        omega
      | some piece =>
        obtain ⟨split, same, -, ended⟩ := read_some read
        cases piece with
        | nil =>
          have empty := ended rfl positive
          subst empty
          rw [drain_stop read (.inr rfl)]
          refine ⟨fun _ => by simp, fun unclean => absurd rfl unclean, ?_, by simp⟩
          exact Nat.le_of_eq same
        | cons head tail =>
          have shorter := read_shrinks read
          obtain ⟨whole, met, fewer, present⟩ := ih _ (by omega) rest rfl
          rw [drain_cons read]
          refine ⟨?_, ?_, by simp only; omega, ?_⟩
          · intro clean
            rw [List.flatten_cons, whole (same.trans clean), split]
          · intro unclean
            have left : ¬ rest.Clean := fun clean => unclean (same.symm.trans clean)
            have less := met left
            simp only
            omega
          · intro piece member
            rcases List.mem_cons.1 member with rfl | member
            · simp
            · exact present piece member

end Source

namespace Sink

def writes (sink : Sink α) (pieces : List (List α)) : Sink α :=
  pieces.foldl (fun sink piece => (sink.write piece).2) sink

def Takes (pieces : List (List α)) (plan : List Response) : Prop :=
  ∀ pair ∈ pieces.zip plan, ∃ size, pair.2 = .accept size ∧ pair.1.length ≤ size

theorem writes_takes {sink : Sink α} {pieces : List (List α)} (takes : Takes pieces sink.plan) :
    (sink.writes pieces).accepted = sink.accepted ++ pieces.flatten ∧
      (sink.writes pieces).refusals = sink.refusals := by
  induction pieces generalizing sink with
  | nil => simp [writes]
  | cons piece rest ih =>
    obtain ⟨accepted, plan⟩ := sink
    cases plan with
    | nil =>
      obtain ⟨grown, same⟩ := @ih ⟨accepted ++ piece, []⟩ (by simp [Takes])
      refine ⟨grown.trans ?_, same⟩
      rw [List.flatten_cons, List.append_assoc]
    | cons response plan =>
      simp only [Takes, List.zip_cons_cons, List.forall_mem_cons] at takes
      obtain ⟨⟨limit, rfl, enough⟩, later⟩ := takes
      obtain ⟨grown, same⟩ := @ih ⟨accepted ++ piece.take limit, plan⟩ later
      refine ⟨grown.trans ?_, same.trans ?_⟩
      · rw [List.take_of_length_le enough, List.flatten_cons, List.append_assoc]
      · simp [refusals]

theorem writes_length {pieces : List (List α)} (present : ∀ piece ∈ pieces, piece ≠ [])
    (sink : Sink α) :
    (sink.writes pieces).accepted.length ≤ sink.accepted.length + pieces.flatten.length ∧
      ((sink.writes pieces).accepted.length = sink.accepted.length + pieces.flatten.length →
        Takes pieces sink.plan) := by
  induction pieces generalizing sink with
  | nil => simp [writes, Takes]
  | cons piece rest ih =>
    rw [List.forall_mem_cons] at present
    have positive := List.length_pos_of_ne_nil present.1
    obtain ⟨accepted, plan⟩ := sink
    simp only [List.flatten_cons, List.length_append]
    cases plan with
    | nil =>
      have bound := (ih present.2 ⟨accepted ++ piece, []⟩).1
      simp only [List.length_append] at bound
      refine ⟨?_, fun _ => by simp [Takes]⟩
      rw [← Nat.add_assoc]
      exact bound
    | cons response plan =>
      cases response with
      | refuse =>
        have bound := (ih present.2 ⟨accepted, plan⟩).1
        have next : (Sink.writes ⟨accepted, .refuse :: plan⟩ (piece :: rest)) =
            Sink.writes ⟨accepted, plan⟩ rest := rfl
        simp only at bound
        rw [next]
        exact ⟨by omega, fun all => by omega⟩
      | accept limit =>
        obtain ⟨bound, exact'⟩ := ih present.2 ⟨accepted ++ piece.take limit, plan⟩
        have next : (Sink.writes ⟨accepted, .accept limit :: plan⟩ (piece :: rest)) =
            Sink.writes ⟨accepted ++ piece.take limit, plan⟩ rest := rfl
        simp only [List.length_append, List.length_take] at bound exact'
        rw [next]
        refine ⟨by omega, fun all => ?_⟩
        simp only [Takes, List.zip_cons_cons, List.forall_mem_cons]
        exact ⟨⟨limit, rfl, by omega⟩, exact' (by omega)⟩

end Sink

end Chunked
