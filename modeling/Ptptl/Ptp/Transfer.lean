import Ptptl.Library.Pieces
import Ptptl.Ptp.KeyStream

set_option autoImplicit false

/-! # Transfers without encryption -/

namespace Ptp.Key

open CInt Chunked

def transferLoop (readsize : Nat) (source : Source Byte) (write : Option (Sink Byte)) (size : Int) :
    Option StreamResult :=
  match _read : source.read readsize with
  | (some (head :: tail), source) => do
    -- what the call returns is not looked at
    let write := write.map fun sink => (sink.write (head :: tail)).2
    let size ← checked (size + (head :: tail).length)
    transferLoop readsize source write size
  -- the end of the data, or an error
  | (_, source) => some { result := size, read := some source, write := write }
termination_by source.contents.length
decreasing_by exact Source.read_shrinks _read

/-- `Transfer`; `write` is `none` when NULL. -/
def transfer (readsize : Nat) (source : Source Byte) (write : Option (Sink Byte)) :
    Option StreamResult :=
  transferLoop readsize source write 0

theorem transferLoop_eq {readsize : Nat} (source : Source Byte) (write : Option (Sink Byte))
    {size : Int} (valid : 0 ≤ size) (small : size ≤ intMax) :
    transferLoop readsize source write size =
      if size + (source.drain readsize).1.flatten.length ≤ intMax then
        some { result := size + (source.drain readsize).1.flatten.length
               read := some (source.drain readsize).2
               write := write.map fun sink => sink.writes (source.drain readsize).1 }
      else none := by
  induction length : source.contents.length using Nat.strongRecOn generalizing source write size with
  | ind count ih =>
    rw [transferLoop]
    split
    next head tail rest read =>
      have shorter := Source.read_shrinks read
      rw [Source.drain_cons read]
      simp only [List.flatten_cons, List.length_append]
      by_cases fits : size + (head :: tail).length ≤ intMax
      next =>
        rw [checked_of_le (by omega) fits]
        have later := ih _ (by omega) rest (write.map fun sink => (sink.write (head :: tail)).2)
          (by omega : 0 ≤ size + (head :: tail).length) fits rfl
        simp only [Option.bind_eq_bind, Option.bind_some, later, Option.map_map, Int.natCast_add,
          Int.add_assoc]
        rfl
      next =>
        have over' : checked (size + (head :: tail).length) = none :=
          checked_eq_none.2 (.inr (by omega))
        rw [over', if_neg (by omega)]
        rfl
    next result rest other read =>
      have stop : result = none ∨ result = some [] := by
        cases result with
        | none => exact .inl rfl
        | some piece =>
          cases piece with
          | nil => exact .inr rfl
          | cons head tail => exact absurd rfl (other head tail)
      rw [Source.drain_stop read stop]
      have same : (write.map fun sink => sink.writes []) = write := by
        cases write <;> rfl
      simp [small, same]

/-- `Transfer` returns -1 after an error of either callback, and without one everything that the
source has is written, once and in order, and counted. -/
def Lossless (readsize : Nat) (source : Source Byte) (write : Option (Sink Byte)) : Prop :=
  ∃ final, transfer readsize source write = some final ∧
    (final.Failed source write → final.result = -1) ∧
    (¬ final.Failed source write → final.Completed source write source.contents)

theorem transfer_lossless_iff {readsize : Nat} (positive : 1 ≤ readsize) (source : Source Byte)
    (write : Option (Sink Byte)) :
    Lossless readsize source write ↔
      source.Clean ∧ (source.contents.length : Int) ≤ intMax ∧
        ∀ sink, write = some sink → Sink.Takes (source.drain readsize).1 sink.plan := by
  obtain ⟨whole, met, -, present⟩ := source.drain_correct positive
  have run := @transferLoop_eq readsize source write 0 (Int.le_refl 0) (by decide)
  constructor
  next =>
    rintro ⟨final, ran, failing, succeeding⟩
    rw [transfer, run] at ran
    split at ran
    next fits =>
      simp only [Option.some.injEq] at ran
      have counted : final.result ≠ -1 := by
        rw [← ran]
        simp only
        omega
      have completed := succeeding fun failed => counted (failing failed)
      have clean := completed.clean
      have total := congrArg List.length (whole clean)
      refine ⟨clean, by omega, ?_⟩
      intro sink given
      have accepted := completed.accepted
      rw [← ran, given] at accepted
      have same := congrArg List.length (Option.some.inj accepted)
      rw [List.length_append, ← total] at same
      exact (Sink.writes_length present sink).2 same
    next => contradiction
  next =>
    rintro ⟨clean, fits, takes⟩
    have all := whole clean
    rw [all, if_pos (by omega)] at run
    refine ⟨_, run, ?_⟩
    have completed : StreamResult.Completed source write
        { result := 0 + (source.contents.length : Int), read := some (source.drain readsize).2
          write := write.map fun sink => sink.writes (source.drain readsize).1 }
        source.contents := by
      have written (sink : Sink Byte) (given : write = some sink) := Sink.writes_takes (takes sink given)
      refine ⟨Int.zero_add _, ?_, ?_, clean⟩
      next =>
        cases write with
        | none => rfl
        | some sink =>
          have grown := (written sink rfl).1
          rw [all] at grown
          exact congrArg some grown
      next =>
        cases write with
        | none => rfl
        | some sink => exact congrArg some (written sink rfl).2
    exact ⟨fun failed => absurd failed completed.not_failed, fun _ => completed⟩

theorem transfer_lossless_chunks : Lossless 2 [.data 1 [2, 3]] (some ⟨[], [.accept 2]⟩) := by
  refine (transfer_lossless_iff (by decide) _ _).2 ⟨rfl, by decide, ?_⟩
  intro sink given
  obtain rfl := Option.some.inj given
  have drained : (Source.drain 2 [.data (1 : Byte) [2, 3]]).1 = [[1, 2], [3]] := by
    simp [Source.drain, Source.read, Source.prepend]
  rw [drained]
  intro pair member
  obtain rfl : pair = ([1, 2], .accept 2) := by simpa using member
  exact ⟨2, rfl, by decide⟩

/-- The write takes the first of two bytes; the second one is never offered again. -/
theorem transfer_lossy :
    (transfer 2 [.data 1 [2]] (some ⟨[], [.accept 1]⟩) =
      some { result := 2, read := some [], write := some ⟨[1], []⟩ }) ∧
      ¬ Lossless 2 [.data 1 [2]] (some ⟨[], [.accept 1]⟩) := by
  have ran : transfer 2 [.data 1 [2]] (some ⟨[], [.accept 1]⟩) =
      some { result := 2, read := some [], write := some ⟨[1], []⟩ } := by
    simp [transfer, transferLoop, Source.read, Source.prepend, Sink.write, checked]
  refine ⟨ran, ?_⟩
  rintro ⟨final, ran', -, succeeding⟩
  rw [ran] at ran'
  obtain rfl := Option.some.inj ran'
  have completed := succeeding ?_
  next =>
    have accepted := completed.accepted
    simp [Source.contents] at accepted
  next =>
    rintro (⟨rest, given, fewer⟩ | refused)
    · obtain rfl := Option.some.inj given
      simp [Source.failures] at fewer
    · simp [Sink.refusals] at refused

end Ptp.Key
