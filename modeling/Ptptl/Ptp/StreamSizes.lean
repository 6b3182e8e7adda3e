import Ptptl.Ptp.Connection
import Ptptl.Ptp.StreamInside
import Ptptl.Ptp.Transfer

set_option autoImplicit false

/-! # What a stream writes where nothing is refused -/

namespace Ptp.Key

open CInt Chunked

variable {evp : Cipher} {digest : Bool} {readsize : Nat}

theorem Writer.send_willing {writer next : Writer} {data : Bytes} (willing : writer.Willing)
    (sent : writer.send data = some next) : writer.Sent next data := by
  obtain ⟨write, total⟩ := writer
  cases write with
  | none =>
    simp only [send, writeAll, Option.bind_eq_bind, Option.bind_eq_some_iff, Option.map_eq_some_iff,
      checked_eq_some] at sent
    obtain ⟨_, ⟨_, ⟨_, rfl⟩, rfl⟩, same⟩ := sent
    simp only [ne_eq, not_true, if_false, Option.pure_def, Option.some.injEq] at same
    subst same
    exact ⟨rfl, rfl, rfl, id⟩
  | some sink =>
    obtain ⟨last, poured, added, kept⟩ := (willing sink rfl).pour data
    have refusals := (Sink.pour_some poured).2.2
    simp only [send, writeAll, poured, Option.bind_eq_bind, Option.bind_eq_some_iff,
      Option.map_eq_some_iff, checked_eq_some] at sent
    obtain ⟨_, ⟨_, ⟨_, rfl⟩, rfl⟩, same⟩ := sent
    simp only [ne_eq, not_true, if_false, Option.pure_def, Option.some.injEq] at same
    subst same
    refine ⟨rfl, by simp [added], by simp [refusals], ?_⟩
    intro _ other given
    exact Option.some.inj given ▸ kept

theorem encryptLoop_grown {state final : EncryptState} (positive : 0 < readsize)
    (clean : state.source.Clean) (willing : state.writer.Willing) (valid : 0 ≤ state.writer.total)
    (run : encryptLoop evp digest readsize state = some final) :
    final.writer.Willing ∧
      final.writer.total = state.writer.total + state.source.contents.length := by
  induction length : state.source.contents.length using Nat.strongRecOn generalizing state with
  | ind count ih =>
    cases filled : readAll state.source readsize with
    | mk result rest =>
      cases result with
      | none =>
        have failed := Source.gather_none filled
        unfold Source.Clean at clean
        omega
      | some piece =>
        obtain ⟨split, same, -, drained⟩ := Source.gather_some filled
        cases piece with
        | nil =>
          have ended := drained positive
          subst ended
          have empty : state.source.contents = [] := by simpa using split.symm
          rw [encryptLoop_ends filled, Option.some.injEq] at run
          subst run
          rw [empty, List.length_nil] at length
          exact ⟨willing, by simp only; omega⟩
        | cons head tail =>
          have shorter := readAll_shrinks filled
          have total := congrArg List.length split
          rw [List.length_append] at total
          rw [encryptLoop_next filled, Option.bind_eq_some_iff] at run
          obtain ⟨writer, sent, run⟩ := run
          have written := Writer.send_willing willing sent
          have grown := written.total
          rw [Cipher.update_length] at grown
          rw [if_neg (by omega)] at run
          obtain ⟨kept, sum⟩ := @ih rest.contents.length (by omega)
            (state.after evp digest rest (head :: tail) writer) (same.trans clean)
            (written.willing willing) (written.valid valid) run rfl
          simp only [EncryptState.after] at sum
          exact ⟨kept, by omega⟩

theorem sendIv_willing {iv : Bool} {fill : Iv} {write : Option (Sink Byte)} {next : Writer}
    (willing : ({ write := write, total := 0 } : Writer).Willing)
    (sent : sendIv iv fill { write := write, total := 0 } = some next) :
    next.Willing ∧ next.total = overhead iv false := by
  cases iv with
  | false =>
    rw [sendIv, if_neg Bool.false_ne_true, Option.some.injEq] at sent
    subst sent
    exact ⟨willing, rfl⟩
  | true =>
    have length : fill.val.length = ivSize := fill.property
    rw [sendIv, if_pos rfl] at sent
    have written := Writer.send_willing willing sent
    exact ⟨written.willing willing, by simp [written.total, overhead, length]⟩

theorem encryptStream_fits {key : SessionKey} {source : Source Byte} {write : Option (Sink Byte)}
    {iv : Bool} {fill : Iv} {final : StreamResult} (positive : 0 < readsize) (clean : source.Clean)
    (willing : ∀ sink, write = some sink → sink.Willing)
    (run : encryptStream evp key (some source) write iv true readsize fill = some final) :
    (source.contents.length + overhead iv true : Int) ≤ intMax := by
  have split := overhead_split iv true
  have single : overhead false true = digestSize := rfl
  simp only [encryptStream, Option.bind_eq_bind, Option.bind_eq_some_iff] at run
  obtain ⟨writer, sentIv, run⟩ := run
  obtain ⟨started, begun⟩ := sendIv_willing willing sentIv
  rw [if_neg (by omega)] at run
  simp only [Option.bind_eq_some_iff] at run
  obtain ⟨_, _, state, looped, last, digested, _⟩ := run
  obtain ⟨kept, total⟩ := encryptLoop_grown positive clean started
    (by simp only; omega) looped
  simp only at total
  have length : (evp.sha1 state.hashed).val.length = digestSize := (evp.sha1 state.hashed).property
  have valid : 0 ≤ state.writer.total := by omega
  simp only [encryptDigest, valid, and_self, if_true, Option.bind_eq_bind,
    Option.bind_eq_some_iff] at digested
  obtain ⟨next, sent, _⟩ := digested
  have written := (Writer.send_willing kept sent).total
  rw [Cipher.update_length, length] at written
  rcases Writer.send_total sent with failed | ⟨_, bound⟩
  · omega
  · omega

theorem encryptTotal_int {size : Int} (int : intMin ≤ size) :
    encryptTotal size true true =
      if size + overhead true true ≤ intMax then some (size + overhead true true) else none := by
  have overhead_ : overhead true true = 28 := rfl
  have iv : ((ivSize : Nat) : Int) = 8 := rfl
  have digest : ((digestSize : Nat) : Int) = 20 := rfl
  simp only [encryptTotal, if_true, iv, digest, overhead_, Option.bind_eq_bind]
  by_cases fits : size + 28 ≤ intMax
  next =>
    have first : checked (size + 8) = some (size + 8) := checked_eq_some.2 ⟨by omega, rfl⟩
    have second : checked (size + 8 + 20) = some (size + 28) :=
      checked_eq_some.2 ⟨by omega, by omega⟩
    rw [first, Option.bind_some, second, if_pos (by omega)]
    rfl
  next =>
    rw [if_neg (by omega)]
    cases first : checked (size + 8) with
    | none => rfl
    | some value =>
      obtain ⟨_, rfl⟩ := checked_eq_some.1 first
      exact checked_eq_none.2 (.inr (by omega))

theorem encrypt_sized (evp : Cipher) (key : SessionKey) (fill : Iv) (plain : Option Bytes)
    {size : Int} (int : intMin ≤ size) {value : Int} :
    (encrypt evp key plain size false true true fill).map Prod.fst = some value ↔
      0 < size ∧ value = size + overhead true true ∧ value ≤ intMax ∨ size ≤ 0 ∧ value = -1 := by
  have overhead_ : overhead true true = 28 := rfl
  have large : ¬ intMax < 28 := by decide
  have total := encryptTotal_int int
  by_cases positive : 0 < size
  next =>
    have some_ : ¬ size ≤ 0 := by omega
    simp only [encrypt, total, positive, some_, true_and, false_and, or_false]
    by_cases fits : size + overhead true true ≤ intMax
    next =>
      simp only [fits, if_true, Option.bind_eq_bind, Option.bind_some]
      simp only [Bool.not_false, and_self, if_true, Option.pure_def, Option.map_some,
        Option.some.injEq]
      constructor
      · rintro rfl
        exact ⟨rfl, fits⟩
      · rintro ⟨rfl, _⟩
        rfl
    next =>
      simp only [fits, if_false, Option.bind_eq_bind, Option.bind_none, Option.map_none]
      constructor
      · intro none
        contradiction
      · rintro ⟨rfl, bound⟩
        exact absurd bound fits
  next =>
    have none : size ≤ 0 := by omega
    have fits : size + overhead true true ≤ intMax := by omega
    have query : encrypt evp key plain size false true true fill = some (-1, []) := by
      simp only [encrypt, total, fits, if_true, Option.bind_eq_bind, Option.bind_some]
      cases plain with
      | none => simp [positive]
      | some plain => simp [positive, none]
    rw [query]
    simp only [positive, none, Option.map_some, Option.some.injEq, false_and, true_and, false_or]
    exact eq_comm

theorem encrypt_take (evp : Cipher) (key : SessionKey) (fill : Iv) {plain : Bytes} {count : Nat}
    (present : 0 < count) (within : count ≤ plain.length)
    (fits : ((count + overhead true true : Nat) : Int) ≤ intMax) :
    encrypt evp key (some plain) count true true true fill =
      some (((cipherText evp key true true fill (plain.take count)).length : Int),
        cipherText evp key true true fill (plain.take count)) := by
  have length : (plain.take count).length = count := List.length_take_of_le within
  have same : encrypt evp key (some plain) count true true true fill =
      encrypt evp key (some (plain.take count)) count true true true fill := by
    have inside : ¬ (plain.length : Int) < count := by omega
    have inside' : ¬ ((plain.take count).length : Int) < count := by omega
    simp only [encrypt, inside, inside', Int.toNat_natCast, List.take_take, Nat.min_self]
  have encrypted := encrypt_correct evp key true true fill
    (List.ne_nil_of_length_pos (by omega) : plain.take count ≠ []) (by rwa [length])
  rw [same, ← encrypted, length]

/-- The default of `readsize`. -/
def defaultReadSize : Nat := 1024

def taking : Sink Byte := ⟨[], []⟩

theorem taking_willing : taking.Willing := ⟨by simp [taking], by simp [taking]⟩

theorem writeAll_taking (conn : Connection) (willing : conn.sent.Willing) (data : Bytes) :
    ∃ next, conn.writeAll data data.length = some ((data.length : Int), next) ∧
      next.sent.Willing ∧ taking.write data = (some data.length, ⟨taking.accepted ++ data, []⟩) ∧
      next.sent.accepted = conn.sent.accepted ++ data := by
  obtain ⟨next, written, added, kept⟩ :=
    conn.writeAll_correct willing data (Int.le_refl (data.length : Int))
  rw [Int.toNat_natCast, List.take_length] at added
  exact ⟨next, written, kept, rfl, added⟩

def StreamResult.written (final : StreamResult) : Bytes := (final.write.map Sink.accepted).getD []

theorem encryptStream_query (evp : Cipher) (key : SessionKey) {source : Source Byte} (iv : Bool)
    (fill : Iv) (positive : 0 < readsize) (small : (readsize + blockSize : Int) ≤ intMax)
    (clean : source.Clean) {size : Int} :
    (encryptStream evp key (some source) none iv true readsize fill).map StreamResult.result =
        some size ↔
      size = (source.contents.length + overhead iv true : Nat) ∧ size ≤ intMax := by
  constructor
  next =>
    intro counted
    obtain ⟨final, run, rfl⟩ := Option.map_eq_some_iff.1 counted
    have fits := encryptStream_fits positive clean (by simp) run
    obtain ⟨other, again, _, completes⟩ := encryptStream_correct evp key source none iv true fill
      positive small fits
    obtain rfl := Option.some.inj (run.symm.trans again)
    have result := (completes clean (by simp)).result
    rw [cipherText_length] at result
    exact ⟨result, by omega⟩
  next =>
    rintro ⟨rfl, fits⟩
    obtain ⟨final, run, _, completes⟩ := encryptStream_correct evp key source none iv true fill
      positive small (by omega)
    have result := (completes clean (by simp)).result
    rw [cipherText_length] at result
    rw [run, Option.map_some, result]

theorem encryptStream_written (evp : Cipher) (key : SessionKey) {source : Source Byte} (iv : Bool)
    (fill : Iv) (positive : 0 < readsize) (small : (readsize + blockSize : Int) ≤ intMax)
    (clean : source.Clean) {body : Bytes} :
    (encryptStream evp key (some source) (some taking) iv true readsize fill).map
        StreamResult.written = some body ↔
      body = cipherText evp key iv true fill source.contents ∧
        ((source.contents.length + overhead iv true : Nat) : Int) ≤ intMax := by
  have willing (sink : Sink Byte) (given : some taking = some sink) : sink.Willing :=
    Option.some.inj given ▸ taking_willing
  constructor
  next =>
    intro counted
    obtain ⟨final, run, rfl⟩ := Option.map_eq_some_iff.1 counted
    have fits := encryptStream_fits positive clean willing run
    obtain ⟨other, again, _, completes⟩ := encryptStream_correct evp key source (some taking) iv
      true fill positive small fits
    obtain rfl := Option.some.inj (run.symm.trans again)
    have accepted := (completes clean willing).accepted
    exact ⟨by simp [StreamResult.written, accepted, taking], by omega⟩
  next =>
    rintro ⟨rfl, fits⟩
    obtain ⟨final, run, _, completes⟩ := encryptStream_correct evp key source (some taking) iv
      true fill positive small (by omega)
    have accepted := (completes clean willing).accepted
    rw [run, Option.map_some]
    simp [StreamResult.written, accepted, taking]

theorem transfer_written {source : Source Byte} (positive : 0 < readsize) (clean : source.Clean)
    {body : Bytes} :
    (transfer readsize source (some taking)).map StreamResult.written = some body ↔
      body = source.contents ∧ (source.contents.length : Int) ≤ intMax := by
  have whole := (source.drain_correct positive).1 clean
  have taken := (@Sink.writes_takes _ taking (source.drain readsize).1
    (by simp [Sink.Takes, taking])).1
  rw [whole] at taken
  rw [transfer, transferLoop_eq source (some taking) (Int.le_refl 0) (by decide), whole]
  split
  next fits =>
    have bound : (source.contents.length : Int) ≤ intMax := by omega
    simp only [Option.map_some, StreamResult.written, taken, Option.getD_some, Option.some.injEq,
      bound, and_true]
    exact eq_comm
  next large =>
    have bound : ¬ (source.contents.length : Int) ≤ intMax := by omega
    simp [bound]

end Ptp.Key
