import Ptptl.Ptp.StreamSizes
import Ptptl.Ptp.Transfer

set_option autoImplicit false

/-! # What the receiver of a stream makes of it -/

namespace Ptp.Key

open CInt Chunked

variable {evp : Cipher} {key : SessionKey} {source : Source Byte} {write : Option (Sink Byte)}

theorem contents_le_events (source : Source Byte) :
    source.contents.length ≤ source.events.length := by
  induction source with
  | nil => exact Nat.le_refl 0
  | cons segment rest ih =>
    cases segment with
    | failure => exact Nat.le_succ_of_le ih
    | data head tail =>
      simp only [Source.contents, Source.events, List.length_append, List.length_map]
      omega

theorem decryptVerify_small {digest : Bool} {state : DecryptState} (none : state.writer.total ≤ 0) :
    (decryptVerify evp digest state).writer.total ≤ 0 := by
  unfold decryptVerify
  split
  next =>
    have failed : (-1 : Int) ≤ 0 := by decide
    exact failed
  next => exact none

theorem decryptFinal_small {state : DecryptState} (none : state.writer.total ≤ 0)
    (small : state.buffer.length ≤ digestSize) :
    (∀ next, decryptFinal evp true state = some next → next.writer.total ≤ 0) ∧
      (state.buffer.length = digestSize → ∃ next, decryptFinal evp true state = some next) := by
  have twenty : overhead false true = digestSize := rfl
  by_cases valid : 0 ≤ state.writer.total
  next =>
    by_cases enough : overhead false true ≤ state.buffer.length
    next =>
      have exact : state.buffer.length - overhead false true = 0 := by omega
      have fits : state.writer.total + state.buffer.length ≤ intMax := by
        have bound : digestSize ≤ 20 := Nat.le_refl 20
        unfold intMax
        omega
      obtain ⟨next, finished, settled, -, -⟩ := decryptFinal_correct evp true state valid enough fits
      rw [exact, List.take_zero] at settled
      refine ⟨fun other same => ?_, fun _ => ⟨next, finished⟩⟩
      obtain rfl := Option.some.inj (finished.symm.trans same)
      rcases settled.outcome with failed | sent
      next => omega
      next =>
        have total := sent.total
        rw [List.length_nil] at total
        omega
    next =>
      have short : decryptFinal evp true state = Option.none := by
        simp only [decryptFinal, valid, if_true, finalData, List.append_nil, true_and]
        rw [if_pos (by rw [Cipher.update_length]; omega)]
        rfl
      refine ⟨fun next same => ?_, fun whole => absurd (Nat.le_of_eq whole.symm) enough⟩
      rw [short] at same
      contradiction
  next =>
    have kept : decryptFinal evp true state = some state := by
      simp only [decryptFinal, valid, if_false]
    refine ⟨fun next same => ?_, fun _ => ⟨state, kept⟩⟩
    obtain rfl := Option.some.inj (kept.symm.trans same)
    exact none

/-- Nothing is written, and the call returns if `returns`. -/
def Nothing (run : Option StreamResult) (returns : Prop) : Prop :=
  (∀ final, run = some final → final.result ≤ 0) ∧ (returns → ∃ final, run = some final)

theorem Nothing.of_some {final : StreamResult} {returns : Prop} (none : final.result ≤ 0) :
    Nothing (some final) returns := by
  refine ⟨fun other same => ?_, fun _ => ⟨final, rfl⟩⟩
  obtain rfl := Option.some.inj same
  exact none

theorem decryptStream_small {readsize : Nat} (positive : digestPaddedSize < readsize)
    (small : source.contents.length ≤ overhead true true) :
    Nothing (decryptStream evp key (some source) write true true readsize)
      (source.contents.length = overhead true true) := by
  have room : overhead true true = ivSize + digestSize := rfl
  have failed : (-1 : Int) ≤ 0 := by decide
  cases stored : readIv true source with
  | mk result rest =>
  cases result with
  | none =>
    simp only [decryptStream, stored]
    exact .of_some failed
  | some ivData =>
  by_cases whole : ivData.length = ivSize
  next =>
    have split := congrArg List.length (Source.gather_some stored).1
    rw [List.length_append] at split
    let start : DecryptState :=
      { ctx := startCtx key true (Block.ofBytes ivSize ivData), hashed := [], buffer := [],
        writer := { write := write, total := 0 } }
    have twenty : digestSize = 20 := rfl
    obtain ⟨last, state, looped, settled⟩ := decryptLoop_correct evp true rest start positive
      (Nat.zero_le _) (Int.le_refl 0) (by simp only [start, List.length_nil, intMax]; omega)
    have run : decryptStream evp key (some source) write true true readsize =
        (decryptFinal evp true state).bind fun next => some
          { result := (decryptVerify evp true next).writer.total, read := some last,
            write := (decryptVerify evp true next).writer.write } := by
      simp only [decryptStream, stored, whole, ne_eq, not_true, and_false, if_false]
      change (decryptLoop evp true readsize rest start).bind _ = _
      rw [looped]
      rfl
    rw [run]
    rcases settled.outcome with failed | ⟨front, done⟩
    next =>
      rw [decryptFinal_failed evp true failed, Option.bind_some]
      exact .of_some (decryptVerify_small (by omega))
    next =>
      -- the loop holds all of it back
      have padded : padding true = digestSize * 2 := rfl
      have pieces := congrArg List.length done.split
      have held := done.kept
      have total := done.decrypted.sent.total
      simp only [start, List.length_append, List.length_nil, Nat.zero_add, Int.zero_add,
        Cipher.update_length] at pieces held total
      obtain ⟨none, returns⟩ := @decryptFinal_small evp state (by omega) (by omega)
      constructor
      next =>
        intro final same
        obtain ⟨next, finished, same⟩ := Option.bind_eq_some_iff.1 same
        obtain rfl := Option.some.inj same
        exact decryptVerify_small (none next finished)
      next =>
        intro exact'
        obtain ⟨next, finished⟩ := returns (by omega)
        rw [finished]
        exact ⟨_, rfl⟩
  next =>
    simp only [decryptStream, stored, true_and, ne_eq, whole, not_false_eq_true, if_true]
    exact .of_some failed

/-- What decrypts to something is the cipher text of it, and nothing else was received. -/
theorem decryptStream_authentic {readsize : Nat} (positive : digestPaddedSize < readsize)
    (fits : (source.contents.length : Int) ≤ intMax) {final : StreamResult}
    (run : decryptStream evp key (some source) write true true readsize = some final)
    (received : 0 < final.result) : ∃ fill data, data ≠ [] ∧
      source.contents = cipherText evp key true true fill data ∧
        final.Completed source write data := by
  have long : overhead true true < source.contents.length := by
    by_contra short
    have none := (decryptStream_small positive (Nat.le_of_not_lt short)).1 final run
    omega
  obtain ⟨other, again, outcome, -⟩ :=
    decryptStream_correct evp key source write true true positive long fits
  obtain rfl := Option.some.inj (run.symm.trans again)
  rcases outcome with failed | ⟨valid, completed⟩
  next => omega
  next =>
    refine ⟨_, _, ?_, (cipherText_plainText evp key true long (valid rfl)).symm, completed⟩
    intro none
    have result := completed.result
    rw [none, List.length_nil] at result
    omega

theorem transfer_all {readsize : Nat} (positive : 0 < readsize) (clean : source.Clean)
    (fits : (source.contents.length : Int) ≤ intMax) :
    ∃ final, transfer readsize source (some taking) = some final ∧
      (source.contents = [] → final.result ≤ 0) ∧ (source.contents ≠ [] →
        final.result = source.contents.length ∧ final.written = source.contents) := by
  have whole := (source.drain_correct positive).1 clean
  have taken := (@Sink.writes_takes _ taking (source.drain readsize).1
    (by simp [Sink.Takes, taking])).1
  rw [whole] at taken
  have run : transfer readsize source (some taking) = some
      { result := 0 + (source.contents.length : Int), read := some (source.drain readsize).2
        write := some (taking.writes (source.drain readsize).1) } := by
    rw [transfer, transferLoop_eq source (some taking) (Int.le_refl 0) (by decide),
      whole, if_pos (by omega)]
    rfl
  refine ⟨_, run, fun empty => ?_, fun _ => ⟨Int.zero_add _, ?_⟩⟩
  · rw [empty]
    exact Int.le_refl 0
  · exact taken

theorem decryptStream_all {fill : Iv} (clean : source.Clean) {data : Bytes}
    (fits : ((data.length + overhead true true : Nat) : Int) ≤ intMax)
    (same : source.contents = cipherText evp key true true fill data) :
    ∃ final, decryptStream evp key (some source) (some taking) true true
        defaultReadSize = some final ∧
      (data = [] → final.result ≤ 0) ∧
      (data ≠ [] → final.result = data.length ∧ final.written = data) := by
  have length := cipherText_length evp key true true fill data
  rw [← same] at length
  by_cases empty : data = []
  next =>
    rw [empty, List.length_nil, Nat.zero_add] at length
    obtain ⟨none, returns⟩ := @decryptStream_small evp key source (some taking)
      defaultReadSize (by decide) (Nat.le_of_eq length)
    obtain ⟨final, run⟩ := returns length
    exact ⟨final, run, fun _ => none final run, fun present => absurd empty present⟩
  next =>
    have some' := List.length_pos_of_ne_nil empty
    obtain ⟨final, run, -, completes⟩ := decryptStream_correct evp key source
      (some taking) true true (show padding true < defaultReadSize by decide) (by omega)
      (by omega)
    have plain : plainText evp key true source.contents =
        data ++ (evp.sha1 data).val := by
      rw [same, plainText_cipherText, if_pos rfl]
    have count : source.contents.length - overhead true true = data.length := by omega
    rw [plain, count, List.take_left, List.drop_left] at completes
    have willing (sink : Sink Byte) (given : some taking = some sink) : sink.Willing :=
      Option.some.inj given ▸ taking_willing
    have completed := completes clean willing fun _ => rfl
    refine ⟨final, run, fun none => absurd none empty, fun _ => ⟨completed.result, ?_⟩⟩
    simp [StreamResult.written, completed.accepted, taking]

end Ptp.Key
