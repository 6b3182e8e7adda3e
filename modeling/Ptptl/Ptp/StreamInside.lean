import Ptptl.Ptp.StreamBounds

set_option autoImplicit false

/-! # Which streams stay inside of the buffer -/

namespace Ptp.Key

open CInt Chunked Bounded

theorem Writer.send_total {writer next : Writer} {data : Bytes}
    (sent : writer.send data = some next) :
    next.total = -1 ∨ next.total = writer.total + data.length ∧ next.total ≤ intMax := by
  obtain ⟨write, total⟩ := writer
  simp only [send, Option.bind_eq_bind, Option.bind_eq_some_iff] at sent
  obtain ⟨⟨size, last⟩, written, same⟩ := sent
  simp only [pure, Option.some.injEq] at same
  split at same
  next => exact .inl (same ▸ rfl)
  next whole =>
    simp only [ne_eq, Decidable.not_not] at whole
    subst same
    apply Or.inr
    cases write with
    | none =>
      simp only [writeAll, Option.map_eq_some_iff, Prod.mk.injEq, checked_eq_some] at written
      obtain ⟨total', ⟨⟨-, high⟩, rfl⟩, -, rfl⟩ := written
      exact ⟨rfl, high⟩
    | some sink =>
      simp only [writeAll] at written
      split at written
      next =>
        simp only [Option.some.injEq, Prod.mk.injEq] at written
        omega
      next size' rest poured =>
        simp only [Option.map_eq_some_iff, Prod.mk.injEq, checked_eq_some] at written
        obtain ⟨total', ⟨⟨-, high⟩, rfl⟩, rfl, rfl⟩ := written
        rw [whole] at high ⊢
        exact ⟨rfl, high⟩

section

variable {evp : Cipher} {digest : Bool} {readsize : Nat}

theorem encryptLoop_total {state final : EncryptState} (positive : 0 < readsize)
    (small : state.writer.total ≤ intMax)
    (run : encryptLoop evp digest readsize state = some final) :
    final.writer.total < 0 ∨ state.source.Clean ∧
      state.writer.total + state.source.contents.length ≤ intMax := by
  induction length : state.source.contents.length using Nat.strongRecOn generalizing state with
  | ind count ih =>
    cases filled : readAll state.source readsize with
    | mk result rest =>
      cases result with
      | none =>
        rw [encryptLoop_fails filled, Option.some.injEq] at run
        subst run
        exact .inl (by simp [Writer.fail])
      | some piece =>
        obtain ⟨split, same, -, drained⟩ := Source.gather_some filled
        cases piece with
        | nil =>
          have ended := drained positive
          subst ended
          have empty : state.source.contents = [] := by simpa using split.symm
          rw [empty, List.length_nil] at length
          exact .inr ⟨same.symm, by omega⟩
        | cons head tail =>
          have shorter := readAll_shrinks filled
          have total := congrArg List.length split
          rw [List.length_append] at total
          rw [encryptLoop_next filled, Option.bind_eq_some_iff] at run
          obtain ⟨writer, sent, run⟩ := run
          split at run
          next failed =>
            rw [← Option.some.inj run]
            exact .inl failed
          next valid =>
            rcases Writer.send_total sent with failed | ⟨grown, bound⟩
            · omega
            · rw [Cipher.update_length] at grown
              rcases ih rest.contents.length (by omega) bound run rfl with failed | ⟨clean, fits⟩
              · exact .inl failed
              · simp only [EncryptState.after] at clean fits
                exact .inr ⟨same.symm.trans clean, by omega⟩

theorem sendIv_total {iv : Bool} {fill : Iv} {write : Option (Sink Byte)} {next : Writer}
    (sent : sendIv iv fill { write := write, total := 0 } = some next) :
    next.total < 0 ∨ next.total = overhead iv false := by
  cases iv with
  | false =>
    rw [sendIv, if_neg Bool.false_ne_true, Option.some.injEq] at sent
    exact .inr (sent ▸ rfl)
  | true =>
    have length : fill.val.length = ivSize := fill.property
    rw [sendIv, if_pos rfl] at sent
    rcases Writer.send_total sent with failed | ⟨total, -⟩
    · omega
    · simp [total, overhead, length]

theorem encryptDigestIn_inside {size : Int} {state : EncryptState}
    (room : 0 ≤ state.writer.total → digest = true → digestSize ≤ size) :
    Inside (encryptDigestIn evp digest size state) := by
  rw [encryptDigestIn]
  split
  next holds =>
    have storing : access size 0 digestSize = .ok () :=
      access_front (by omega) (by have := room holds.1 holds.2; omega)
    rw [storing]
    exact inside_orOverflow _
  next => exact inside_ok _

theorem encryptFinalIn_inside {size : Int} (room : 0 ≤ size) (state : EncryptState) :
    Inside (encryptFinalIn size state) := by
  rw [encryptFinalIn]
  split
  next =>
    have storing : access size 0 finalData.length = .ok () :=
      access_front (by omega) (by simpa [finalData] using room)
    rw [storing]
    exact inside_orOverflow _
  next => exact inside_ok _

theorem encryptIn_inside (key : SessionKey) {source : Source Byte} (write : Option (Sink Byte))
    {iv : Bool} (fill : Iv) (positive : 0 < readsize)
    (room : digest = true → digestSize ≤ readsize + blockSize ∨ ¬ source.Clean ∨
      intMax < overhead iv false + source.contents.length) :
    Inside (encryptIn evp key (some source) write iv digest readsize fill) := by
  simp only [encryptIn, bind]
  apply Inside.bind (inside_orOverflow _)
  intro writer sent
  rw [orOverflow_ok] at sent
  split
  next => exact inside_ok _
  next valid =>
    have header := (sendIv_total sent).resolve_left valid
    apply Inside.bind (inside_orOverflow _)
    intro size allocated
    rw [orOverflow_ok, checked_eq_some] at allocated
    have enough : (readsize : Int) ≤ size := by omega
    rw [encryptLoopIn_eq enough]
    apply Inside.bind (inside_orOverflow _)
    intro state looped
    rw [orOverflow_ok] at looped
    have small : overhead iv false ≤ ivSize := by cases iv <;> simp [overhead]
    have outcome := encryptLoop_total positive (by simp only [header, intMax]; unfold ivSize at small; omega) looped
    apply Inside.bind
    next =>
      apply encryptDigestIn_inside
      intro done digested
      -- a source that fails or is too long does not get here
      rcases outcome with failed | ⟨clean, fits⟩
      · omega
      · simp only [header] at clean fits
        rcases room digested with enough | unclean | long
        · omega
        · exact absurd clean unclean
        · omega
    next =>
      intro state' _
      apply Inside.bind (encryptFinalIn_inside (by omega) state')
      intro last _
      exact inside_ok _

theorem Writer.willing_none (total : Int) : Willing { write := none, total := total } := by
  simp [Willing]

theorem encryptIn_outside (evp : Cipher) (key : SessionKey) {source : Source Byte} {iv : Bool}
    (fill : Iv) (positive : 0 < readsize) (clean : source.Clean)
    (fits : overhead iv false + source.contents.length ≤ intMax)
    (small : readsize + blockSize < digestSize) :
    encryptIn evp key (some source) none iv true readsize fill = .error .outside := by
  have ivLength : fill.val.length = ivSize := fill.property
  have header : (if iv then fill.val else []).length = overhead iv false := by
    cases iv <;> simp [overhead, ivLength]
  obtain ⟨writer, sent, settled⟩ := sendIv_correct iv fill { write := none, total := 0 }
    (Int.le_refl 0) (by simp only; omega)
  have started := settled.succeeds (Writer.willing_none 0)
  have total := started.total
  simp only [header, Int.zero_add] at total
  obtain ⟨state, looped, settledLoop⟩ := encryptLoop_correct evp true
    { ctx := startCtx key iv fill, hashed := [], source := source, writer := writer } positive
    (by simp only; omega) (by simp only; omega)
  have done := settledLoop.succeeds ⟨clean, started.willing (Writer.willing_none 0)⟩
  have valid := done.sent.valid (by simp only; omega)
  have allocated : checked (readsize + blockSize) = some ((readsize + blockSize : Nat) : Int) :=
    checked_of_le (by omega) (by unfold digestSize at small; simp only [intMax]; omega)
  have storing : access (readsize + blockSize : Nat) 0 digestSize = .error .outside :=
    access_outside (by omega) (by omega)
  simp only [encryptIn, bind, sent, orOverflow_some, Except.bind]
  rw [if_neg (by omega), allocated]
  simp only [orOverflow_some, encryptLoopIn_eq (Int.ofNat_le.2 (Nat.le_add_right readsize blockSize)),
    looped]
  rw [encryptDigestIn, if_pos ⟨valid, rfl⟩, storing]
  rfl

theorem decryptLoop_held {source rest : Source Byte} {state final : DecryptState}
    (within : state.buffer.length ≤ readsize)
    (run : decryptLoop evp digest readsize source state = some (rest, final)) :
    final.buffer.length ≤ readsize ∧
      (digest = true → digestSize ≤ state.buffer.length → digestSize ≤ final.buffer.length) := by
  induction length : source.contents.length using Nat.strongRecOn generalizing source state with
  | ind count ih =>
    have kept : digest = true → padding digest = digestPaddedSize := fun digested => by
      simp [padding, digested]
    have double : digestPaddedSize = digestSize * 2 := rfl
    cases filled : readAll source (readsize - state.buffer.length) with
    | mk result rest' =>
      cases result with
      | none =>
        rw [decryptLoop_fails filled, Option.some.injEq, Prod.mk.injEq] at run
        rw [← run.2]
        exact ⟨within, fun _ => id⟩
      | some piece =>
        have bound := readAll_le filled
        cases piece with
        | nil =>
          simp only [decryptLoop_ends filled, Option.map_eq_some_iff, Prod.mk.injEq] at run
          obtain ⟨next, done, -, rfl⟩ := run
          have left := decryptBuffer_left done
          exact ⟨by omega, fun digested held => by have := kept digested; omega⟩
        | cons head tail =>
          have shorter := readAll_shrinks filled
          rw [decryptLoop_next filled, Option.bind_eq_some_iff] at run
          obtain ⟨next, done, run⟩ := run
          have left := decryptBuffer_left done
          simp only [List.length_append] at left
          split at run
          next =>
            rw [Option.some.injEq, Prod.mk.injEq] at run
            rw [← run.2]
            exact ⟨by omega, fun digested held => by have := kept digested; omega⟩
          next =>
            obtain ⟨small, later⟩ := ih rest'.contents.length (by omega) (by omega) run rfl
            exact ⟨small, fun digested held =>
              later digested (by have := kept digested; omega)⟩

theorem decryptFinalIn_inside {state : DecryptState} (within : state.buffer.length ≤ readsize)
    (room : 0 ≤ state.writer.total → digest = true → digestSize ≤ state.buffer.length) :
    Inside (decryptFinalIn evp digest readsize state) := by
  rw [decryptFinalIn]
  split
  next valid =>
    have enough := room valid
    have taking : access readsize 0 state.buffer.length = .ok () :=
      access_front (by omega) (by omega)
    have ending : access readsize state.buffer.length finalData.length = .ok () :=
      access_inside (by omega) (by omega) (by simpa [finalData] using within)
    have hashing : access readsize 0 (state.buffer.length + finalData.length -
        if digest then digestSize else 0) = .ok () := by
      apply access_front
      next =>
        split
        next digested => have := enough digested; omega
        next => omega
      next =>
        simp only [finalData, List.length_nil]
        split
        next => omega
        next => omega
    simp only [taking, ending, hashing, bind]
    apply Inside.bind (inside_ok _)
    intro _ _
    apply Inside.bind (inside_ok _)
    intro _ _
    apply Inside.bind (inside_ok _)
    intro _ _
    apply Inside.bind (inside_orOverflow _)
    intro next _
    split
    next holds =>
      have comparing : access readsize (state.buffer.length + finalData.length -
          if digest then digestSize else 0) digestSize = .ok () := by
        have := enough holds.2
        simp only [finalData, List.length_nil, holds.2, if_true]
        exact access_inside (by omega) (by omega) (by omega)
      simp only [comparing]
      exact inside_ok _
    next => exact inside_ok _
  next => exact inside_ok _

theorem readIv_front {iv : Bool} {source : Source Byte}
    (enough : overhead iv false ≤ (front source.events).length) :
    ∃ data rest, readIv iv source = (some data, rest) ∧ data.length = overhead iv false ∧
      rest.events = source.events.drop (overhead iv false) := by
  cases iv with
  | false => exact ⟨[], source, rfl, rfl, rfl⟩
  | true =>
    obtain ⟨rest, filled, left⟩ := Source.follows.gather_some ivSize source (.inl enough)
    refine ⟨_, rest, filled, ?_, left⟩
    rw [List.length_take]
    exact Nat.min_eq_left enough

theorem decryptIn_unread (evp : Cipher) (key : SessionKey) (write : Option (Sink Byte)) {iv : Bool}
    {source : Source Byte} (short : (front source.events).length < overhead iv false) :
    ∃ final, decryptIn evp key (some source) write iv digest readsize = .ok final ∧
      final.result = -1 := by
  cases iv with
  | false => exact absurd short (Nat.not_lt_zero _)
  | true =>
    by_cases delivered : Delivered ivSize source.events
    next =>
      obtain ⟨rest, filled, -⟩ := Source.follows.gather_some ivSize source delivered
      have few : ((front source.events).take ivSize).length ≠ ivSize := by
        rw [List.length_take]
        have : overhead true false = ivSize := rfl
        omega
      have read : readIv true source = (some ((front source.events).take ivSize), rest) := filled
      simp only [decryptIn, read]
      rw [if_pos ⟨trivial, few⟩]
      exact ⟨_, rfl, rfl⟩
    next =>
      obtain ⟨rest, filled⟩ := Source.follows.gather_none ivSize source delivered
      have read : readIv true source = (none, rest) := filled
      simp only [decryptIn, read]
      exact ⟨_, rfl, rfl⟩

abbrev DecryptState.start (ctx : CipherCtx) (write : Option (Sink Byte)) : DecryptState where
  ctx := ctx
  hashed := []
  buffer := []
  writer := { write := write, total := 0 }

/-- The rest of `Decrypt` once the IV has been fetched. -/
def decryptRest (evp : Cipher) (digest : Bool) (readsize : Nat) (source : Source Byte)
    (state : DecryptState) : Except Fault StreamResult := do
  let (source, state) ← decryptLoopIn evp digest readsize source state
  let state ← decryptFinalIn evp digest readsize state
  return { result := state.writer.total, read := some source, write := state.writer.write }

theorem decryptIn_read (evp : Cipher) (key : SessionKey) (write : Option (Sink Byte)) {iv : Bool}
    {source : Source Byte} (enough : overhead iv false ≤ (front source.events).length) :
    ∃ ctx rest, rest.events = source.events.drop (overhead iv false) ∧
      decryptIn evp key (some source) write iv digest readsize =
        decryptRest evp digest readsize rest
          (.start ctx write) := by
  obtain ⟨data, rest, read, length, left⟩ := readIv_front enough
  have whole : ¬ (iv = true ∧ data.length ≠ ivSize) := by
    rintro ⟨rfl, differ⟩
    exact differ length
  refine ⟨startCtx key iv (Block.ofBytes ivSize data), rest, left, ?_⟩
  simp only [decryptIn, read]
  rw [if_neg whole]
  rfl

section

variable {source : Source Byte} {ctx : CipherCtx} {write : Option (Sink Byte)}

theorem decryptLoop_start_fails (evp : Cipher) (digest : Bool)
    (undelivered : ¬ Delivered readsize source.events) :
    ∃ rest, decryptLoop evp digest readsize source (.start ctx write) =
      some (rest, { DecryptState.start ctx write with writer := { write := write, total := -1 } }) := by
  obtain ⟨rest, filled⟩ := Source.follows.gather_none readsize source undelivered
  exact ⟨rest, @decryptLoop_fails evp digest readsize source rest (.start ctx write) filled⟩

theorem decryptRest_eq (evp : Cipher) (digest : Bool) :
    decryptRest evp digest readsize source (.start ctx write) =
      (orOverflow (decryptLoop evp digest readsize source (.start ctx write))).bind fun pair =>
        (decryptFinalIn evp digest readsize pair.2).bind fun state =>
          .ok { result := state.writer.total, read := some pair.1, write := state.writer.write } := by
  have held : (DecryptState.start ctx write).buffer.length ≤ readsize := Nat.zero_le _
  rw [← decryptLoopIn_eq held]
  rfl

theorem decryptRest_fails (evp : Cipher) (digest : Bool)
    (undelivered : ¬ Delivered readsize source.events) :
    ∃ final, decryptRest evp digest readsize source (.start ctx write) = .ok final ∧
      final.result = -1 := by
  obtain ⟨rest, failed⟩ := @decryptLoop_start_fails _ source ctx write evp digest undelivered
  rw [decryptRest_eq, failed]
  exact ⟨_, rfl, rfl⟩

theorem decryptLoop_first {evp : Cipher} {rest : Source Byte} {final : DecryptState}
    (wide : digestSize ≤ readsize) (long : digestSize ≤ (front source.events).length)
    (run : decryptLoop evp true readsize source (.start ctx write) = some (rest, final))
    (valid : 0 ≤ final.writer.total) : digestSize ≤ final.buffer.length := by
  have positive : 0 < digestSize := by decide
  by_cases delivered : Delivered readsize source.events
  next =>
    obtain ⟨rest', filled, -⟩ := Source.follows.gather_some readsize source delivered
    have count := @List.length_take _ readsize (front source.events)
    cases piece : (front source.events).take readsize with
    | nil =>
      rw [piece, List.length_nil] at count
      omega
    | cons head tail =>
      rw [piece] at filled count
      have next := @decryptLoop_next evp true readsize source rest' (.start ctx write) head tail filled
      rw [next, Option.bind_eq_some_iff] at run
      obtain ⟨state, done, run⟩ := run
      have left := decryptBuffer_left done
      have double : padding true = digestSize * 2 := rfl
      simp only [List.nil_append] at left
      split at run
      next failed =>
        rw [Option.some.injEq, Prod.mk.injEq] at run
        rw [run.2] at failed
        omega
      next => exact (decryptLoop_held (by omega) run).2 rfl (by omega)
  next =>
    obtain ⟨rest', failed⟩ := @decryptLoop_start_fails _ source ctx write evp true delivered
    rw [failed, Option.some.injEq, Prod.mk.injEq] at run
    rw [← run.2] at valid
    contradiction

theorem decryptRest_inside (evp : Cipher)
    (room : digest = true →
      digestSize ≤ readsize ∧ digestSize ≤ (front source.events).length) :
    Inside (decryptRest evp digest readsize source (.start ctx write)) := by
  rw [decryptRest_eq]
  apply Inside.bind (inside_orOverflow _)
  intro pair looped
  obtain ⟨rest, state⟩ := pair
  rw [orOverflow_ok] at looped
  have held : (DecryptState.start ctx write).buffer.length ≤ readsize := Nat.zero_le _
  apply Inside.bind
  next =>
    apply decryptFinalIn_inside (decryptLoop_held held looped).1
    intro valid digested
    subst digested
    exact decryptLoop_first (room rfl).1 (room rfl).2 looped valid
  next =>
    intro state' _
    exact inside_ok _

theorem decryptLoop_short (evp : Cipher) (delivered : Delivered readsize source.events)
    (short : readsize < digestSize ∨ (front source.events).length < digestSize) :
    ∃ last, decryptLoop evp true readsize source (.start ctx none) =
      some (last, { DecryptState.start ctx none with
        buffer := (front source.events).take readsize }) := by
  obtain ⟨rest, filled, left⟩ := Source.follows.gather_some readsize source delivered
  have count := @List.length_take _ readsize (front source.events)
  have double : padding true = digestSize * 2 := rfl
  have kept (buffer : Bytes) (few : buffer.length < digestSize) :
      decryptBuffer evp true { DecryptState.start ctx none with buffer := buffer } =
        some { DecryptState.start ctx none with buffer := buffer } := by
    rw [decryptBuffer_eq, if_neg (by simp only; omega)]
  cases piece : (front source.events).take readsize with
  | nil =>
    rw [piece] at filled
    have ends := @decryptLoop_ends evp true readsize source rest (.start ctx none) filled
    rw [ends, kept [] (by decide)]
    exact ⟨_, rfl⟩
  | cons head tail =>
    rw [piece] at filled count
    have again : ∃ last, readAll rest (readsize - (head :: tail).length) = (some [], last) := by
      by_cases full : readsize ≤ (front source.events).length
      next =>
        have none : readsize - (head :: tail).length = 0 := by omega
        rw [none, readAll, gather, if_pos rfl]
        exact ⟨_, rfl⟩
      next =>
        have empty : rest.events = [] := by
          rw [left, delivered.resolve_left full]
          exact List.drop_of_length_le (by rw [List.length_map]; omega)
        obtain ⟨last, gathered, -⟩ := Source.follows.gather_some
          (readsize - (head :: tail).length) rest (.inr (by rw [empty]; rfl))
        have nothing : front ([] : List (Option Byte)) = [] := rfl
        rw [empty, nothing, List.take_nil] at gathered
        exact ⟨last, gathered⟩
    obtain ⟨last, again⟩ := again
    have next := @decryptLoop_next evp true readsize source rest (.start ctx none) head tail filled
    have ends := @decryptLoop_ends evp true readsize rest last
      { DecryptState.start ctx none with buffer := head :: tail } again
    rw [next]
    simp only [List.nil_append, kept (head :: tail) (by omega), Option.bind_some]
    rw [if_neg (by decide), ends, kept (head :: tail) (by omega)]
    exact ⟨_, rfl⟩

theorem decryptRest_negative (evp : Cipher) (delivered : Delivered readsize source.events)
    (short : readsize < digestSize ∨ (front source.events).length < digestSize) :
    decryptRest evp true readsize source (.start ctx none) = .error .negative := by
  obtain ⟨last, looped⟩ := @decryptLoop_short _ source ctx evp delivered short
  have count := @List.length_take _ readsize (front source.events)
  generalize held : (front source.events).take readsize = buffer at looped count
  have taking : access readsize 0 buffer.length = .ok () :=
    access_front (by omega) (by omega)
  have ending : access readsize buffer.length finalData.length = .ok () :=
    access_inside (by omega) (by omega) (by simp only [finalData, List.length_nil]; omega)
  have hashing : access readsize 0 (buffer.length + finalData.length - digestSize) =
      .error .negative := access_negative (by simp only [finalData, List.length_nil]; omega)
  rw [decryptRest_eq, looped]
  simp only [orOverflow_some, Except.bind, decryptFinalIn]
  rw [if_pos (by decide)]
  simp only [taking, ending, hashing, if_true, bind, Except.bind]

end

end

theorem decryptIn_negative (evp : Cipher) (key : SessionKey) {iv : Bool} {readsize : Nat}
    {source : Source Byte} (delivered : Delivered (overhead iv false + readsize) source.events)
    (enough : overhead iv false ≤ (front source.events).length)
    (short : readsize < digestSize ∨ (front source.events).length < overhead iv true) :
    decryptIn evp key (some source) none iv true readsize = .error .negative := by
  obtain ⟨ctx, rest, left, run⟩ := @decryptIn_read true readsize evp key none iv source enough
  have split := overhead_split iv true
  have single : overhead false true = digestSize := rfl
  rw [run]
  apply decryptRest_negative
  next =>
    rw [left]
    exact (delivered_drop enough readsize).2 delivered
  next =>
    rw [left, front_drop enough, List.length_drop]
    omega

def EncryptFits (readsize : Nat) (iv : Bool) (source : Source Byte) : Prop :=
  digestSize ≤ readsize + blockSize ∨ ¬ source.Clean ∨
    intMax < overhead iv false + source.contents.length

def DecryptFits (readsize : Nat) (iv : Bool) (source : Source Byte) : Prop :=
  ¬ Delivered (overhead iv false + readsize) source.events ∨
    (front source.events).length < overhead iv false ∨
    digestSize ≤ readsize ∧ overhead iv true ≤ (front source.events).length

theorem decryptIn_inside (evp : Cipher) (key : SessionKey) (write : Option (Sink Byte)) {iv digest : Bool}
    {readsize : Nat} {source : Source Byte}
    (room : digest = true → DecryptFits readsize iv source) :
    Inside (decryptIn evp key (some source) write iv digest readsize) := by
  have split := overhead_split iv true
  have single : overhead false true = digestSize := rfl
  by_cases enough : overhead iv false ≤ (front source.events).length
  next =>
    obtain ⟨ctx, rest, left, run⟩ := @decryptIn_read digest readsize evp key write iv source enough
    rw [run]
    by_cases delivered : Delivered (overhead iv false + readsize) source.events
    next =>
      apply decryptRest_inside
      intro digested
      rw [left, front_drop enough, List.length_drop]
      rcases room digested with undelivered | few | ⟨wide, long⟩
      · exact absurd delivered undelivered
      · omega
      · omega
    next =>
      rw [← delivered_drop enough, ← left] at delivered
      obtain ⟨final, done, -⟩ := @decryptRest_fails readsize rest ctx write evp digest delivered
      rw [done]
      exact inside_ok final
  next =>
    obtain ⟨final, done, -⟩ := @decryptIn_unread digest readsize evp key write iv source (by omega)
    rw [done]
    exact inside_ok final

theorem decryptIn_short (evp : Cipher) (key : SessionKey) (write : Option (Sink Byte)) {iv : Bool}
    {readsize : Nat} {source : Source Byte} (fits : DecryptFits readsize iv source)
    (short : source.contents.length < overhead iv true) :
    ∃ final, decryptIn evp key (some source) write iv true readsize = .ok final ∧
      final.result = -1 := by
  have bound := source.front_length_le
  by_cases enough : overhead iv false ≤ (front source.events).length
  next =>
    obtain ⟨ctx, rest, left, run⟩ := @decryptIn_read true readsize evp key write iv source enough
    rcases fits with undelivered | few | ⟨-, long⟩
    · rw [← delivered_drop enough, ← left] at undelivered
      rw [run]
      exact decryptRest_fails evp true undelivered
    · omega
    · omega
  next => exact decryptIn_unread evp key write (by omega)

/-- Both directions stay inside of their buffers over a stream, and one that cannot hold the digest
is refused. -/
structure StreamSafe (readsize : Nat) (iv digest : Bool) (source : Source Byte) : Prop where
  encrypt : ∀ evp key write fill,
    Inside (encryptIn evp key (some source) write iv digest readsize fill)
  decrypt : ∀ evp key write, Inside (decryptIn evp key (some source) write iv digest readsize)
  refuses : digest = true → source.contents.length < overhead iv true → ∀ evp key write,
    ∃ final, decryptIn evp key (some source) write iv true readsize = .ok final ∧ final.result = -1

theorem streamSafe_iff {readsize : Nat} (positive : 1 ≤ readsize) (iv digest : Bool)
    (source : Source Byte) :
    StreamSafe readsize iv digest source ↔
      (digest = true → EncryptFits readsize iv source ∧ DecryptFits readsize iv source) := by
  have split := overhead_split iv true
  have single : overhead false true = digestSize := rfl
  constructor
  next =>
    intro safe digested
    subst digested
    constructor
    next =>
      by_contra unfit
      rw [EncryptFits, not_or, not_or, not_not, Int.not_lt, Nat.not_le] at unfit
      obtain ⟨small, clean, fits⟩ := unfit
      have outside := encryptIn_outside zeroCipher (Block.zero _) (Block.zero _) positive clean fits
        small
      have inside := safe.encrypt zeroCipher (Block.zero _) none (Block.zero _) _ outside
      contradiction
    next =>
      by_contra unfit
      rw [DecryptFits, not_or, not_or, not_not, Nat.not_lt] at unfit
      obtain ⟨delivered, enough, short⟩ := unfit
      have negative := decryptIn_negative zeroCipher (Block.zero _) delivered enough (by omega)
      have inside := safe.decrypt zeroCipher (Block.zero _) none _ negative
      contradiction
  next =>
    intro fits
    constructor
    next =>
      intro evp key write fill
      exact encryptIn_inside key write fill positive fun digested => (fits digested).1
    next =>
      intro evp key write
      exact decryptIn_inside evp key write fun digested => (fits digested).2
    next =>
      intro digested short evp key write
      exact decryptIn_short evp key write (fits digested).2 short

/-- An IV, an encrypted digest and twelve more bytes. -/
theorem streamSafe_default : StreamSafe 1024 true true [.data 0 (List.replicate 39 0)] := by
  refine (streamSafe_iff (by decide) true true _).2 fun _ => ⟨.inl (by decide), .inr (.inr ?_)⟩
  decide +kernel

/-- An IV without a digest behind it. -/
theorem stream_overrun :
    ¬ StreamSafe 1024 true true [.data 0 [0, 0, 0, 0, 0, 0, 0]] ∧
      decryptIn zeroCipher (Block.zero _) (some [.data 0 [0, 0, 0, 0, 0, 0, 0]]) none true true 1024 =
        .error .negative := by
  have negative := @decryptIn_negative zeroCipher (Block.zero _) true 1024
    [.data 0 [0, 0, 0, 0, 0, 0, 0]] (.inr rfl) (by decide) (.inr (by decide))
  constructor
  next =>
    intro safe
    have inside := safe.decrypt _ _ _ _ negative
    contradiction
  next => exact negative

end Ptp.Key
