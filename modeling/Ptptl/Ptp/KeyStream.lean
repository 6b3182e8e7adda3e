import Ptptl.Library.Chunked
import Ptptl.Ptp.Key

set_option autoImplicit false

namespace Ptp.Key

open CInt Chunked

structure Writer where
  write : Option (Sink Byte)
  total : Int

namespace Writer

def writeAll (writer : Writer) (buffer : Bytes) : Option (Int × Writer) :=
  match writer.write with
  | none =>
      (checked (writer.total + buffer.length)).map fun total =>
        ((buffer.length : Int), { writer with total := total })
  | some sink =>
      match sink.pour buffer with
      | (none, sink) => some (-1, { writer with write := some sink })
      | (some size, sink) =>
          (checked (writer.total + size)).map fun total =>
            ((size : Int), { write := some sink, total := total })

def fail (writer : Writer) : Writer := { writer with total := -1 }

/-- `if (WriteAll(...) != size) total = -1`. -/
def send (writer : Writer) (buffer : Bytes) : Option Writer := do
  let (size, next) ← writer.writeAll buffer
  return if size ≠ buffer.length then next.fail else next

def Willing (writer : Writer) : Prop := ∀ sink, writer.write = some sink → sink.Willing

structure Sent (before after : Writer) (data : Bytes) : Prop where
  total : after.total = before.total + data.length
  accepted : after.write.map Sink.accepted = before.write.map fun sink => sink.accepted ++ data
  refusals : after.write.map Sink.refusals = before.write.map Sink.refusals
  willing : before.Willing → after.Willing

theorem Sent.refl (writer : Writer) : Sent writer writer [] where
  total := by simp
  accepted := by simp
  refusals := rfl
  willing := id

theorem Sent.trans {first second third : Writer} {front back : Bytes}
    (earlier : Sent first second front) (later : Sent second third back) :
    Sent first third (front ++ back) where
  total := by
    rw [later.total, earlier.total, List.length_append]
    omega
  accepted := by
    have joined := congrArg (Option.map (· ++ back)) earlier.accepted
    simp only [Option.map_map] at joined
    simpa only [Function.comp_def, List.append_assoc, later.accepted] using joined
  refusals := later.refusals.trans earlier.refusals
  willing := later.willing ∘ earlier.willing

theorem Sent.valid {before after : Writer} {data : Bytes} (sent : Sent before after data)
    (start : 0 ≤ before.total) : 0 ≤ after.total := by
  rw [sent.total]
  omega

/-- A writer reports failure by its total; `good` is what holds when it does not. -/
structure Settled (writer : Writer) (ideal good : Prop) : Prop where
  outcome : writer.total = -1 ∨ good
  succeeds : ideal → good

theorem Settled.imp {writer : Writer} {ideal better good done : Prop}
    (settled : writer.Settled ideal good) (finish : good → done) (assume : better → ideal) :
    writer.Settled better done :=
  ⟨settled.outcome.imp_right finish, finish ∘ settled.succeeds ∘ assume⟩

theorem Settled.cases {writer : Writer} {ideal good : Prop} (settled : writer.Settled ideal good)
    (valid : good → 0 ≤ writer.total) :
    writer.total = -1 ∧ ¬ ideal ∨ 0 ≤ writer.total ∧ good := by
  rcases settled.outcome with failed | done
  · refine .inl ⟨failed, fun holds => ?_⟩
    have := valid (settled.succeeds holds)
    omega
  · exact .inr ⟨valid done, done⟩

theorem send_correct (writer : Writer) (data : Bytes) (valid : 0 ≤ writer.total)
    (fits : writer.total + data.length ≤ intMax) :
    ∃ next, writer.send data = some next ∧
      Settled next writer.Willing (Sent writer next data) := by
  obtain ⟨write, total⟩ := writer
  simp only at valid fits
  cases write with
  | none =>
    have inRange := checked_of_le (by omega) fits
    have sent : Sent ⟨none, total⟩ ⟨none, total + data.length⟩ data :=
      ⟨rfl, rfl, rfl, fun _ => by simp [Willing]⟩
    exact ⟨⟨none, total + data.length⟩, by simp [send, writeAll, inRange], .inr sent,
      fun _ => sent⟩
  | some sink =>
    cases poured : sink.pour data with
    | mk result rest =>
      have ideal (willing : Willing ⟨some sink, total⟩) :
          result = some data.length ∧ rest.Willing := by
        obtain ⟨last, all, -, kept⟩ := (willing sink rfl).pour data
        rw [poured] at all
        obtain ⟨rfl, rfl⟩ := Prod.mk.injEq .. ▸ all
        exact ⟨rfl, kept⟩
      cases result with
      | none =>
        refine ⟨⟨some rest, -1⟩, ?_, .inl rfl, ?_⟩
        · have unequal : ¬ (-1 : Int) = data.length := by omega
          simp [send, writeAll, poured, unequal, fail]
        · intro willing
          simpa using (ideal willing).1
      | some size =>
        obtain ⟨bound, added, same⟩ := Sink.pour_some poured
        have inRange : checked (total + size) = some (total + size) :=
          checked_of_le (by omega) (by omega)
        by_cases all : size = data.length
        · subst all
          have sent : Sent ⟨some sink, total⟩ ⟨some rest, total + data.length⟩ data :=
            ⟨rfl, by simp [added], by simp [same],
              fun willing => by simpa [Willing] using (ideal willing).2⟩
          refine ⟨⟨some rest, total + data.length⟩, ?_, .inr sent, fun _ => sent⟩
          simp [send, writeAll, poured, inRange]
        · refine ⟨⟨some rest, -1⟩, ?_, .inl rfl, ?_⟩
          · have unequal : ¬ (size : Int) = data.length := by omega
            simp [send, writeAll, poured, inRange, unequal, fail]
          · intro willing
            have full := (ideal willing).1
            simp_all

end Writer

def readAll (read : Source Byte) (size : Nat) : Option Bytes × Source Byte :=
  gather Source.read size read

theorem readAll_shrinks {source rest : Source Byte} {size : Nat} {head : Byte} {tail : Bytes}
    (filled : readAll source size = (some (head :: tail), rest)) :
    rest.contents.length < source.contents.length := by
  rw [← (Source.gather_some filled).1]
  simp only [List.length_append, List.length_cons]
  omega

structure EncryptState where
  ctx : CipherCtx
  hashed : Bytes
  source : Source Byte
  writer : Writer

def encryptLoop (evp : Cipher) (digest : Bool) (readsize : Nat) (state : EncryptState) :
    Option EncryptState :=
  match _filled : readAll state.source readsize with
  | (none, source) => some { state with source := source, writer := state.writer.fail }
  | (some [], source) => some { state with source := source }
  | (some (head :: tail), source) => do
      let hashed := if digest then state.hashed ++ head :: tail else state.hashed
      let (buffer, ctx) := evp.update state.ctx (head :: tail)
      let writer ← state.writer.send buffer
      let next := { ctx := ctx, hashed := hashed, source := source, writer := writer }
      if writer.total < 0 then return next
      encryptLoop evp digest readsize next
termination_by state.source.contents.length
decreasing_by exact readAll_shrinks _filled

structure Encrypted (evp : Cipher) (digest : Bool) (start final : EncryptState) : Prop where
  sent : start.writer.Sent final.writer (evp.update start.ctx start.source.contents).1
  ctx : final.ctx = (evp.update start.ctx start.source.contents).2
  hashed : digest = true → final.hashed = start.hashed ++ start.source.contents
  drained : final.source = []
  clean : start.source.Clean

theorem Encrypted.step {evp : Cipher} {digest : Bool} {start next final : EncryptState}
    {piece : Bytes} (rest : Encrypted evp digest next final)
    (read : piece ++ next.source.contents = start.source.contents)
    (same : next.source.failures = start.source.failures)
    (sent : start.writer.Sent next.writer (evp.update start.ctx piece).1)
    (ctx : next.ctx = (evp.update start.ctx piece).2)
    (hashed : digest = true → next.hashed = start.hashed ++ piece) :
    Encrypted evp digest start final where
  sent := by
    rw [← read, Cipher.update_append, ← ctx]
    exact sent.trans rest.sent
  ctx := by rw [rest.ctx, ← read, Cipher.update_append, ← ctx]
  hashed := by
    intro digested
    rw [rest.hashed digested, hashed digested, ← read, List.append_assoc]
  drained := rest.drained
  clean := same.symm.trans rest.clean

theorem encryptLoop_correct (evp : Cipher) (digest : Bool) {readsize : Nat} (state : EncryptState)
    (positive : 0 < readsize) (valid : 0 ≤ state.writer.total)
    (fits : state.writer.total + state.source.contents.length ≤ intMax) :
    ∃ final, encryptLoop evp digest readsize state = some final ∧
      final.writer.Settled (state.source.Clean ∧ state.writer.Willing)
        (Encrypted evp digest state final) := by
  induction length : state.source.contents.length using Nat.strongRecOn generalizing state with
  | ind size ih =>
    rw [encryptLoop]
    split
    next source filled =>
      refine ⟨_, rfl, .inl rfl, ?_⟩
      rintro ⟨clean, -⟩
      have failed := Source.gather_none filled
      unfold Source.Clean at clean
      omega
    next source filled =>
      obtain ⟨split, same, -, drained⟩ := Source.gather_some filled
      have ended := drained positive
      subst ended
      have empty : state.source.contents = [] := by simpa using split.symm
      have done : Encrypted evp digest state { state with source := [] } := by
        refine ⟨?_, ?_, ?_, rfl, same.symm⟩
        · simpa [empty] using Writer.Sent.refl state.writer
        · simp [empty]
        · simp [empty]
      exact ⟨_, rfl, .inr done, fun _ => done⟩
    next head tail source filled =>
      obtain ⟨split, same, -, -⟩ := Source.gather_some filled
      have shorter := readAll_shrinks filled
      have count := congrArg List.length split
      simp only [List.length_append] at count
      obtain ⟨writer, sent, settled⟩ := state.writer.send_correct
        (evp.update state.ctx (head :: tail)).1 valid (by rw [Cipher.update_length]; omega)
      simp only [sent, Option.bind_eq_bind, Option.bind_some]
      rcases settled.cases (fun written => written.valid valid) with
        ⟨failed, refused⟩ | ⟨valid', written⟩
      · rw [if_pos (by omega)]
        exact ⟨_, rfl, .inl failed, fun ideal => absurd ideal.2 refused⟩
      · rw [if_neg (by omega)]
        have total := written.total
        rw [Cipher.update_length] at total
        obtain ⟨final, run, finished⟩ := ih source.contents.length (by omega)
          { ctx := (evp.update state.ctx (head :: tail)).2,
            hashed := if digest then state.hashed ++ head :: tail else state.hashed,
            source := source, writer := writer } valid' (by simp only; omega) rfl
        refine ⟨final, run, finished.imp ?_ ?_⟩
        · exact fun rest => rest.step split same written rfl (by simp +contextual)
        · exact fun ideal => ⟨same.trans ideal.1, written.willing ideal.2⟩

theorem Writer.send_nil (writer : Writer) (valid : 0 ≤ writer.total)
    (fits : writer.total ≤ intMax) : writer.send [] = some writer := by
  obtain ⟨write, total⟩ := writer
  have inRange := checked_of_le valid fits
  simp only at inRange
  cases write <;> simp [Writer.send, Writer.writeAll, Sink.pour, inRange]

def encryptDigest (evp : Cipher) (digest : Bool) (state : EncryptState) : Option EncryptState :=
  if 0 ≤ state.writer.total ∧ digest then do
    let (buffer, ctx) := evp.update state.ctx (evp.sha1 state.hashed).val
    let writer ← state.writer.send buffer
    return { state with ctx := ctx, writer := writer }
  else some state

/-- `EVP_EncryptFinal` and `EVP_DecryptFinal` add nothing in a stream mode. -/
def finalData : Bytes := []

def encryptFinal (state : EncryptState) : Option EncryptState :=
  if 0 ≤ state.writer.total then do
    let writer ← state.writer.send finalData
    return { state with writer := writer }
  else some state

/-- `EVP_CIPHER_CTX_block_size` of `EVP_bf_ofb`. -/
def blockSize : Nat := 1

structure StreamResult where
  result : Int
  read : Option (Source Byte)
  write : Option (Sink Byte)

def sendIv (iv : Bool) (fill : Iv) (writer : Writer) : Option Writer :=
  if iv then writer.send fill.val else some writer

/-- `Encrypt(Read, Write)`; `read` and `write` are `none` when NULL. -/
def encryptStream (evp : Cipher) (key : SessionKey) (read : Option (Source Byte))
    (write : Option (Sink Byte)) (iv digest : Bool) (readsize : Nat) (fill : Iv) :
    Option StreamResult :=
  match read with
  | none => some { result := -1, read := none, write := write }
  | some source => do
      let writer : Writer := { write := write, total := 0 }
      let writer ← sendIv iv fill writer
      if writer.total < 0 then
        return { result := -1, read := some source, write := writer.write }
      let _ ← checked (readsize + blockSize)
      let state : EncryptState :=
        { ctx := startCtx key iv fill, hashed := [], source := source, writer := writer }
      let state ← encryptLoop evp digest readsize state
      let state ← encryptDigest evp digest state
      let state ← encryptFinal state
      return { result := state.writer.total, read := some state.source,
               write := state.writer.write }

/-- Every byte of `source` was read, and exactly `output` was written. -/
structure StreamResult.Completed (source : Source Byte) (write : Option (Sink Byte))
    (final : StreamResult) (output : Bytes) : Prop where
  result : final.result = output.length
  accepted : final.write.map Sink.accepted = write.map fun sink => sink.accepted ++ output
  refusals : final.write.map Sink.refusals = write.map Sink.refusals
  clean : source.Clean

def StreamResult.Failed (source : Source Byte) (write : Option (Sink Byte)) (final : StreamResult) :
    Prop :=
  (∃ rest, final.read = some rest ∧ rest.failures < source.failures) ∨
    final.write.map Sink.refusals ≠ write.map Sink.refusals

theorem StreamResult.Completed.not_failed {source : Source Byte} {write : Option (Sink Byte)}
    {final : StreamResult} {output : Bytes} (completed : final.Completed source write output) :
    ¬ final.Failed source write := by
  rintro (⟨rest, -, fewer⟩ | refused)
  · have clean := completed.clean
    unfold Source.Clean at clean
    omega
  · exact refused completed.refusals

theorem sendIv_correct (iv : Bool) (fill : Iv) (writer : Writer) (valid : 0 ≤ writer.total)
    (fits : writer.total + overhead iv false ≤ intMax) :
    ∃ next, sendIv iv fill writer = some next ∧
      next.Settled writer.Willing (writer.Sent next (if iv then fill.val else [])) := by
  have length : fill.val.length = ivSize := fill.property
  cases iv with
  | false => exact ⟨_, rfl, .inr (.refl _), fun _ => .refl _⟩
  | true =>
    apply Writer.send_correct _ _ valid
    rw [length]
    exact fits

theorem encryptDigest_failed (evp : Cipher) (digest : Bool) {state : EncryptState}
    (failed : state.writer.total = -1) : encryptDigest evp digest state = some state := by
  simp [encryptDigest, failed]

theorem encryptFinal_failed {state : EncryptState} (failed : state.writer.total = -1) :
    encryptFinal state = some state := by
  simp [encryptFinal, failed]

theorem encryptDigest_correct (evp : Cipher) (digest : Bool) (state : EncryptState)
    (valid : 0 ≤ state.writer.total)
    (fits : state.writer.total + overhead false digest ≤ intMax) :
    ∃ next, encryptDigest evp digest state = some next ∧ next.source = state.source ∧
      next.writer.Settled state.writer.Willing (state.writer.Sent next.writer
        (if digest then (evp.update state.ctx (evp.sha1 state.hashed).val).1 else [])) := by
  cases digest with
  | false =>
    have kept := Writer.Sent.refl state.writer
    exact ⟨state, by simp [encryptDigest], rfl, .inr kept, fun _ => kept⟩
  | true =>
    have length : (evp.sha1 state.hashed).val.length = digestSize := (evp.sha1 state.hashed).property
    simp only [overhead, Bool.false_eq_true, if_false, if_true, Nat.zero_add] at fits
    obtain ⟨writer, sent, settled⟩ := state.writer.send_correct
      (evp.update state.ctx (evp.sha1 state.hashed).val).1 valid
      (by rw [Cipher.update_length, length]; exact fits)
    refine ⟨{ state with
      ctx := (evp.update state.ctx (evp.sha1 state.hashed).val).2, writer := writer },
      ?_, rfl, settled⟩
    simp [encryptDigest, valid, sent]

theorem encryptFinal_correct {state : EncryptState} (valid : 0 ≤ state.writer.total)
    (fits : state.writer.total ≤ intMax) : encryptFinal state = some state := by
  simp [encryptFinal, valid, finalData, state.writer.send_nil valid fits]

theorem encryptStream_correct (evp : Cipher) (key : SessionKey) (source : Source Byte)
    (write : Option (Sink Byte)) (iv digest : Bool) {readsize : Nat} (fill : Iv)
    (positive : 0 < readsize) (small : (readsize + blockSize : Int) ≤ intMax)
    (fits : (source.contents.length + overhead iv digest : Int) ≤ intMax) :
    ∃ final, encryptStream evp key (some source) write iv digest readsize fill = some final ∧
      (final.result = -1 ∨
        final.Completed source write (cipherText evp key iv digest fill source.contents)) ∧
      (source.Clean → (∀ sink, write = some sink → sink.Willing) →
        final.Completed source write (cipherText evp key iv digest fill source.contents)) := by
  have ivLength : fill.val.length = ivSize := fill.property
  have split := overhead_split iv digest
  have header : (if iv then fill.val else []).length = overhead iv false := by
    cases iv <;> simp [overhead, ivLength]
  obtain ⟨writer, sentIv, settledIv⟩ :=
    sendIv_correct iv fill ⟨write, 0⟩ (Int.le_refl 0) (by simp only; omega)
  simp only [encryptStream, sentIv, Option.bind_eq_bind, Option.bind_some]
  rcases settledIv.cases (fun sent => sent.valid (Int.le_refl 0)) with
    ⟨failed, refused⟩ | ⟨valid, ivDone⟩
  · rw [if_pos (by omega)]
    exact ⟨_, rfl, .inl rfl, fun _ willing => absurd willing refused⟩
  rw [if_neg (by omega), checked_of_le (by omega) small, Option.bind_some]
  have ivTotal := ivDone.total
  rw [header] at ivTotal
  simp only [Int.zero_add] at ivTotal
  obtain ⟨state, looped, settledLoop⟩ := encryptLoop_correct evp digest
    { ctx := startCtx key iv fill, hashed := [], source := source, writer := writer } positive valid
    (by simp only; omega)
  rw [looped, Option.bind_some]
  rcases settledLoop.cases (fun done => done.sent.valid valid) with
    ⟨failed, refused⟩ | ⟨valid, loopDone⟩
  · rw [encryptDigest_failed evp digest failed, Option.bind_some, encryptFinal_failed failed]
    exact ⟨_, rfl, .inl failed, fun clean willing =>
      absurd ⟨clean, ivDone.willing willing⟩ refused⟩
  have loopTotal := loopDone.sent.total
  rw [Cipher.update_length] at loopTotal
  simp only at loopTotal
  obtain ⟨last, digested, -, settledDigest⟩ := encryptDigest_correct evp digest state valid (by omega)
  rw [digested, Option.bind_some]
  rcases settledDigest.cases (fun done => done.valid valid) with
    ⟨failed, refused⟩ | ⟨valid, digestDone⟩
  · rw [encryptFinal_failed failed]
    exact ⟨_, rfl, .inl failed, fun _ willing =>
      absurd (loopDone.sent.willing (ivDone.willing willing)) refused⟩
  have whole := (ivDone.trans loopDone.sent).trans digestDone
  have output : (if iv then fill.val else []) ++
      (evp.update (startCtx key iv fill) source.contents).1 ++
      (if digest then (evp.update state.ctx (evp.sha1 state.hashed).val).1 else []) =
      cipherText evp key iv digest fill source.contents := by
    rw [loopDone.ctx]
    cases digest with
    | false => simp [cipherText]
    | true => simp [cipherText, loopDone.hashed rfl]
  simp only [output] at whole
  have total := whole.total
  rw [cipherText_length] at total
  simp only [Int.zero_add] at total
  have completed : StreamResult.Completed source write
      { result := last.writer.total, read := some last.source, write := last.writer.write }
      (cipherText evp key iv digest fill source.contents) :=
    ⟨by simpa using whole.total, whole.accepted, whole.refusals, loopDone.clean⟩
  rw [encryptFinal_correct valid (by omega)]
  exact ⟨_, rfl, .inr completed, fun _ _ => completed⟩

def digestPaddedSize : Nat := digestSize * 2

structure DecryptState where
  ctx : CipherCtx
  hashed : Bytes
  buffer : Bytes
  writer : Writer

def decryptPart (evp : Cipher) (digest : Bool) (size : Nat) (state : DecryptState) :
    Option DecryptState := do
  let (plain, ctx) := evp.update state.ctx (state.buffer.take size)
  let writer ← state.writer.send plain
  return { ctx := ctx, hashed := if digest then state.hashed ++ plain else state.hashed,
           buffer := state.buffer.drop size, writer := writer }

def decryptBuffer (evp : Cipher) (digest : Bool) (state : DecryptState) : Option DecryptState :=
  if digest then
    let size := state.buffer.length - digestPaddedSize
    if size > 0 then decryptPart evp true size state else some state
  else if state.buffer.length > 0 then decryptPart evp false state.buffer.length state
  else some state

def decryptLoop (evp : Cipher) (digest : Bool) (readsize : Nat) (source : Source Byte)
    (state : DecryptState) : Option (Source Byte × DecryptState) :=
  match _filled : readAll source (readsize - state.buffer.length) with
  | (none, source) => some (source, { state with writer := state.writer.fail })
  | (some [], source) => do
      let next ← decryptBuffer evp digest state
      return (source, next)
  | (some (head :: tail), source) => do
      let next ← decryptBuffer evp digest { state with buffer := state.buffer ++ head :: tail }
      if next.writer.total < 0 then return (source, next)
      decryptLoop evp digest readsize source next
termination_by source.contents.length
decreasing_by exact readAll_shrinks _filled

def decryptFinal (evp : Cipher) (digest : Bool) (state : DecryptState) : Option DecryptState :=
  if 0 ≤ state.writer.total then do
    let (plain, ctx) := evp.update state.ctx state.buffer
    let buffer := plain ++ finalData
    -- the digest context would take a negative size
    if digest ∧ buffer.length < digestSize then none
    let size := if digest then buffer.length - digestSize else buffer.length
    let hashed := if digest then state.hashed ++ buffer.take size else state.hashed
    let writer ← state.writer.send (buffer.take size)
    return { ctx := ctx, hashed := hashed, buffer := buffer.drop size, writer := writer }
  else some state

def decryptVerify (evp : Cipher) (digest : Bool) (state : DecryptState) : DecryptState :=
  if 0 ≤ state.writer.total ∧ digest ∧
      state.buffer.take digestSize ≠ (evp.sha1 state.hashed).val then
    { state with writer := state.writer.fail }
  else state

def readIv (iv : Bool) (source : Source Byte) : Option Bytes × Source Byte :=
  if iv then readAll source ivSize else (some [], source)

/-- `Decrypt(Read, Write)`. -/
def decryptStream (evp : Cipher) (key : SessionKey) (read : Option (Source Byte))
    (write : Option (Sink Byte)) (iv digest : Bool) (readsize : Nat) : Option StreamResult :=
  match read with
  | none => some { result := -1, read := none, write := write }
  | some source => do
      match readIv iv source with
      | (none, source) => return { result := -1, read := some source, write := write }
      | (some ivData, source) =>
          if iv ∧ ivData.length ≠ ivSize then
            return { result := -1, read := some source, write := write }
          let state : DecryptState :=
            { ctx := startCtx key iv (Block.ofBytes ivSize ivData), hashed := [], buffer := [],
              writer := { write := write, total := 0 } }
          let (source, state) ← decryptLoop evp digest readsize source state
          let state ← decryptFinal evp digest state
          let state := decryptVerify evp digest state
          return { result := state.writer.total, read := some source, write := state.writer.write }

def padding (digest : Bool) : Nat := if digest then digestPaddedSize else 0

structure Decrypted (evp : Cipher) (digest : Bool) (start final : DecryptState) (front : Bytes) :
    Prop where
  sent : start.writer.Sent final.writer (evp.update start.ctx front).1
  ctx : final.ctx = (evp.update start.ctx front).2
  hashed : digest = true → final.hashed = start.hashed ++ (evp.update start.ctx front).1

theorem Decrypted.refl (evp : Cipher) (digest : Bool) (state : DecryptState) :
    Decrypted evp digest state state [] where
  sent := by simpa using Writer.Sent.refl state.writer
  ctx := by simp
  hashed := by simp

theorem Decrypted.trans {evp : Cipher} {digest : Bool} {first second third : DecryptState}
    {front back : Bytes} (earlier : Decrypted evp digest first second front)
    (later : Decrypted evp digest second third back) :
    Decrypted evp digest first third (front ++ back) where
  sent := by
    rw [Cipher.update_append, ← earlier.ctx]
    exact earlier.sent.trans later.sent
  ctx := by rw [later.ctx, earlier.ctx, Cipher.update_append]
  hashed := by
    intro digested
    rw [later.hashed digested, earlier.hashed digested, Cipher.update_append, ← earlier.ctx,
      List.append_assoc]

theorem decryptPart_correct (evp : Cipher) (digest : Bool) (size : Nat) (state : DecryptState)
    (valid : 0 ≤ state.writer.total)
    (fits : state.writer.total + state.buffer.length ≤ intMax) :
    ∃ next, decryptPart evp digest size state = some next ∧
      next.writer.Settled state.writer.Willing
        (Decrypted evp digest state next (state.buffer.take size)) ∧
      next.buffer = state.buffer.drop size := by
  have bound : (state.buffer.take size).length ≤ state.buffer.length :=
    List.length_take_le' _ _
  obtain ⟨writer, sent, settled⟩ := state.writer.send_correct
    (evp.update state.ctx (state.buffer.take size)).1 valid (by rw [Cipher.update_length]; omega)
  simp only [decryptPart, sent, Option.bind_eq_bind, Option.bind_some]
  exact ⟨_, rfl, settled.imp (fun done => ⟨done, rfl, fun digested => if_pos digested⟩) id, rfl⟩

theorem decryptBuffer_eq (evp : Cipher) (digest : Bool) (state : DecryptState) :
    decryptBuffer evp digest state =
      if padding digest < state.buffer.length then
        decryptPart evp digest (state.buffer.length - padding digest) state
      else some state := by
  cases digest with
  | false => simp [decryptBuffer, padding]
  | true =>
    simp only [decryptBuffer, padding, if_true]
    exact if_congr Nat.sub_pos_iff_lt rfl rfl

theorem decryptBuffer_correct (evp : Cipher) (digest : Bool) (state : DecryptState)
    (valid : 0 ≤ state.writer.total)
    (fits : state.writer.total + state.buffer.length ≤ intMax) :
    ∃ next, decryptBuffer evp digest state = some next ∧
      next.writer.Settled state.writer.Willing (Decrypted evp digest state next
        (state.buffer.take (state.buffer.length - padding digest))) ∧
      next.buffer = state.buffer.drop (state.buffer.length - padding digest) := by
  rw [decryptBuffer_eq]
  split
  · exact decryptPart_correct evp digest _ state valid fits
  · have none : state.buffer.length - padding digest = 0 := by omega
    have kept := Decrypted.refl evp digest state
    simp only [none, List.take_zero, List.drop_zero]
    exact ⟨state, rfl, ⟨.inr kept, fun _ => kept⟩, rfl⟩

/-- The loop has decrypted `front` and holds back the rest of what it read. -/
structure Drained (evp : Cipher) (digest : Bool) (source rest : Source Byte)
    (start final : DecryptState) (front : Bytes) : Prop where
  decrypted : Decrypted evp digest start final front
  split : front ++ final.buffer = start.buffer ++ source.contents
  kept : final.buffer.length =
    min (padding digest) (start.buffer.length + source.contents.length)
  drained : rest = []
  clean : source.Clean

theorem Drained.step {evp : Cipher} {digest : Bool} {source rest last : Source Byte}
    {start next final : DecryptState} {piece front : Bytes}
    (remaining : Drained evp digest rest last next final front)
    (read : piece ++ rest.contents = source.contents) (same : rest.failures = source.failures)
    (done : Decrypted evp digest { start with buffer := start.buffer ++ piece } next
      ((start.buffer ++ piece).take ((start.buffer ++ piece).length - padding digest)))
    (left : next.buffer =
      (start.buffer ++ piece).drop ((start.buffer ++ piece).length - padding digest)) :
    Drained evp digest source last start final
      ((start.buffer ++ piece).take ((start.buffer ++ piece).length - padding digest) ++ front)
    where
  decrypted := Decrypted.trans ⟨done.sent, done.ctx, done.hashed⟩ remaining.decrypted
  split := by
    rw [List.append_assoc, remaining.split, left, ← List.append_assoc, List.take_append_drop,
      List.append_assoc, read]
  kept := by
    have count := congrArg List.length read
    have held := congrArg List.length left
    simp only [List.length_append, List.length_drop] at count held
    rw [remaining.kept]
    omega
  drained := remaining.drained
  clean := same.symm.trans remaining.clean

theorem decryptLoop_correct (evp : Cipher) (digest : Bool) {readsize : Nat} (source : Source Byte)
    (state : DecryptState) (positive : padding digest < readsize)
    (held : state.buffer.length ≤ padding digest) (valid : 0 ≤ state.writer.total)
    (fits : state.writer.total + state.buffer.length + source.contents.length ≤ intMax) :
    ∃ rest final, decryptLoop evp digest readsize source state = some (rest, final) ∧
      final.writer.Settled (source.Clean ∧ state.writer.Willing)
        (∃ front, Drained evp digest source rest state final front) := by
  induction length : source.contents.length using Nat.strongRecOn generalizing source state with
  | ind size ih =>
    rw [decryptLoop]
    split
    next rest filled =>
      refine ⟨_, _, rfl, .inl rfl, ?_⟩
      rintro ⟨clean, -⟩
      have failed := Source.gather_none filled
      unfold Source.Clean at clean
      omega
    next rest filled =>
      obtain ⟨split, same, -, drained⟩ := Source.gather_some filled
      have ended := drained (by simp only [List.length_nil]; omega)
      subst ended
      have empty : source.contents = [] := by simpa using split.symm
      have unchanged : decryptBuffer evp digest state = some state := by
        rw [decryptBuffer_eq, if_neg (by omega)]
      have done : Drained evp digest source [] state state [] :=
        ⟨Decrypted.refl evp digest state, by simp [empty], by simp [empty, held], rfl, same.symm⟩
      rw [unchanged]
      exact ⟨_, _, rfl, .inr ⟨_, done⟩, fun _ => ⟨_, done⟩⟩
    next head tail rest filled =>
      obtain ⟨split, same, -, -⟩ := Source.gather_some filled
      have shorter := readAll_shrinks filled
      have count := congrArg List.length split
      simp only [List.length_append] at count
      obtain ⟨next, decrypted, settled, left⟩ := decryptBuffer_correct evp digest
        { state with buffer := state.buffer ++ head :: tail } valid
        (by simp only [List.length_append]; omega)
      simp only [decrypted, Option.bind_eq_bind, Option.bind_some]
      rcases settled.cases (fun done => done.sent.valid valid) with
        ⟨failed, refused⟩ | ⟨valid', done⟩
      · rw [if_pos (by omega)]
        exact ⟨_, _, rfl, .inl failed, fun ideal => absurd ideal.2 refused⟩
      · rw [if_neg (by omega)]
        have total := done.sent.total
        have leftLength := congrArg List.length left
        simp only [Cipher.update_length, List.length_take, List.length_append] at total
        simp only [List.length_drop, List.length_append] at leftLength
        obtain ⟨rest', final, run, finished⟩ := ih rest.contents.length (by omega) rest next
          (by omega) valid' (by omega) rfl
        refine ⟨rest', final, run, finished.imp ?_ ?_⟩
        · rintro ⟨front, remaining⟩
          exact ⟨_, remaining.step split same done left⟩
        · exact fun ideal => ⟨same.trans ideal.1, done.sent.willing ideal.2⟩

theorem decryptFinal_failed (evp : Cipher) (digest : Bool) {state : DecryptState}
    (failed : state.writer.total = -1) : decryptFinal evp digest state = some state := by
  simp [decryptFinal, failed]

theorem decryptVerify_failed (evp : Cipher) (digest : Bool) {state : DecryptState}
    (failed : state.writer.total = -1) : decryptVerify evp digest state = state := by
  simp [decryptVerify, failed]

theorem decryptFinal_correct (evp : Cipher) (digest : Bool) (state : DecryptState)
    (valid : 0 ≤ state.writer.total) (long : overhead false digest ≤ state.buffer.length)
    (fits : state.writer.total + state.buffer.length ≤ intMax) :
    let plain := (evp.update state.ctx state.buffer).1
    let size := state.buffer.length - overhead false digest
    ∃ next, decryptFinal evp digest state = some next ∧
      next.writer.Settled state.writer.Willing
        (state.writer.Sent next.writer (plain.take size)) ∧
      (digest = true → next.hashed = state.hashed ++ plain.take size) ∧
      next.buffer = plain.drop size := by
  intro plain size
  have length : plain.length = state.buffer.length := Cipher.update_length evp _ _
  have bound : (plain.take size).length ≤ plain.length := List.length_take_le' _ _
  obtain ⟨writer, sent, settled⟩ := state.writer.send_correct (plain.take size) valid (by omega)
  have enough : ¬ (digest = true ∧ plain.length < digestSize) := by
    rintro ⟨rfl, short⟩
    simp only [overhead, Bool.false_eq_true, if_false, if_true, Nat.zero_add] at long
    omega
  have size' : (if digest then plain.length - digestSize else plain.length) = size := by
    cases digest <;> simp [size, length, overhead]
  simp only [decryptFinal, valid, if_true, finalData, List.append_nil]
  rw [if_neg enough, size', sent]
  exact ⟨_, rfl, settled, fun digested => if_pos digested, rfl⟩

theorem readIv_correct (iv : Bool) (source : Source Byte)
    (long : overhead iv false ≤ source.contents.length) :
    (∃ rest, readIv iv source = (none, rest) ∧ ¬ source.Clean) ∨
      ∃ data rest, readIv iv source = (some data, rest) ∧ data.length = overhead iv false ∧
        data ++ rest.contents = source.contents ∧ rest.failures = source.failures := by
  cases iv with
  | false => exact .inr ⟨[], source, rfl, rfl, rfl, rfl⟩
  | true =>
    cases outcome : readAll source ivSize with
    | mk result rest =>
      cases result with
      | none =>
        have failed := Source.gather_none outcome
        refine .inl ⟨rest, outcome, ?_⟩
        unfold Source.Clean
        omega
      | some data =>
        obtain ⟨split, same, bound, drained⟩ := Source.gather_some outcome
        refine .inr ⟨data, rest, outcome, ?_, split, same⟩
        have count := congrArg List.length split
        simp only [List.length_append] at count
        simp only [overhead, if_true] at long ⊢
        by_cases short : data.length < ivSize
        · rw [drained short] at count
          simp only [Source.contents_nil, List.length_nil] at count
          simp only [Bool.false_eq_true, if_false] at long
          omega
        · simp only [Bool.false_eq_true, if_false]
          omega

theorem plainText_split (evp : Cipher) (key : SessionKey) (iv : Bool) {stored : Bytes}
    (length : stored.length = overhead iv false) (rest : Bytes) :
    plainText evp key iv (stored ++ rest) =
      (evp.update (startCtx key iv (Block.ofBytes ivSize stored)) rest).1 := by
  cases iv with
  | false =>
    have none : stored = [] := List.length_eq_zero_iff.1 length
    simp [plainText, startCtx, none]
  | true =>
    have filled : stored.length = ivSize := by simpa [overhead] using length
    have same := Block.ofBytes_append ⟨stored, filled⟩ rest
    have alone := Block.ofBytes_append ⟨stored, filled⟩ []
    simp only [List.append_nil] at same alone
    simp only [plainText, if_true, same, alone, List.drop_left' filled]

theorem decryptVerify_correct (evp : Cipher) (digest : Bool) {state : DecryptState}
    (valid : 0 ≤ state.writer.total) (length : state.buffer.length = overhead false digest) :
    decryptVerify evp digest state =
      if digest = true → (evp.sha1 state.hashed).val = state.buffer then state
      else { state with writer := state.writer.fail } := by
  cases digest with
  | false => simp [decryptVerify]
  | true =>
    have whole : state.buffer.take digestSize = state.buffer :=
      List.take_of_length_le (Nat.le_of_eq (by simpa [overhead] using length))
    by_cases same : (evp.sha1 state.hashed).val = state.buffer
    · simp [decryptVerify, whole, same]
    · have differ : state.buffer ≠ (evp.sha1 state.hashed).val := fun equal => same equal.symm
      simp [decryptVerify, whole, valid, same, differ]

/-- The data and the digest, where a front has been decrypted and `buffer` has not. -/
theorem plainText_ends (evp : Cipher) (key : SessionKey) (iv digest : Bool) {stored buffer : Bytes}
    (length : stored.length = overhead iv false)
    (enough : overhead false digest ≤ buffer.length) (front : Bytes) :
    let cipher := stored ++ (front ++ buffer)
    let start := startCtx key iv (Block.ofBytes ivSize stored)
    let size := cipher.length - overhead iv digest
    let kept := buffer.length - overhead false digest
    (plainText evp key iv cipher).take size = (evp.update start front).1 ++
        (evp.update (evp.update start front).2 buffer).1.take kept ∧
      (plainText evp key iv cipher).drop size =
        (evp.update (evp.update start front).2 buffer).1.drop kept := by
  intro cipher start size kept
  have split := overhead_split iv digest
  have position : size = (evp.update start front).1.length + kept := by
    simp only [size, kept, cipher, Cipher.update_length, List.length_append, length, split]
    omega
  rw [plainText_split evp key iv length, Cipher.update_append, position]
  exact ⟨List.take_length_add_append _, List.drop_length_add_append _⟩

theorem decryptEnd_correct (evp : Cipher) (digest : Bool) {start state : DecryptState}
    {front : Bytes} (done : Decrypted evp digest start state front) (fresh : start.hashed = [])
    (valid : 0 ≤ state.writer.total) (enough : overhead false digest ≤ state.buffer.length)
    (fits : state.writer.total + state.buffer.length ≤ intMax) :
    let plain := (evp.update state.ctx state.buffer).1
    let size := state.buffer.length - overhead false digest
    let data := (evp.update start.ctx front).1 ++ plain.take size
    let right := digest = true → (evp.sha1 data).val = plain.drop size
    ∃ next, decryptFinal evp digest state = some next ∧
      (decryptVerify evp digest next).writer.Settled (start.writer.Willing ∧ right)
        (right ∧ start.writer.Sent (decryptVerify evp digest next).writer data) := by
  intro plain size data right
  obtain ⟨next, finished, settled, hashed, left⟩ :=
    decryptFinal_correct evp digest state valid enough fits
  refine ⟨next, finished, ?_⟩
  rcases settled.cases (fun sent => sent.valid valid) with ⟨failed, refused⟩ | ⟨valid', sent⟩
  · rw [decryptVerify_failed evp digest failed]
    exact ⟨.inl failed, fun ideal => absurd (done.sent.willing ideal.1) refused⟩
  have whole : start.writer.Sent next.writer data := done.sent.trans sent
  have leftLength : next.buffer.length = overhead false digest := by
    rw [left, List.length_drop, Cipher.update_length]
    omega
  have verdict : (digest = true → (evp.sha1 next.hashed).val = next.buffer) ↔ right := by
    have digested (used : digest = true) : next.hashed = data := by
      rw [hashed used, done.hashed used, fresh]
      rfl
    exact forall_congr' fun used => by rw [digested used, left]
  rw [decryptVerify_correct evp digest valid' leftLength]
  by_cases accepted : right
  · rw [if_pos (verdict.2 accepted)]
    exact ⟨.inr ⟨accepted, whole⟩, fun _ => ⟨accepted, whole⟩⟩
  · rw [if_neg (fun claimed => accepted (verdict.1 claimed))]
    exact ⟨.inl rfl, fun ideal => absurd ideal.2 accepted⟩

theorem decryptStream_correct (evp : Cipher) (key : SessionKey) (source : Source Byte)
    (write : Option (Sink Byte)) (iv digest : Bool) {readsize : Nat}
    (positive : padding digest < readsize)
    (long : overhead iv digest < source.contents.length)
    (fits : (source.contents.length : Int) ≤ intMax) :
    let data := (plainText evp key iv source.contents).take
      (source.contents.length - overhead iv digest)
    let tail := (plainText evp key iv source.contents).drop
      (source.contents.length - overhead iv digest)
    let valid := digest = true → (evp.sha1 data).val = tail
    ∃ final, decryptStream evp key (some source) write iv digest readsize = some final ∧
      (final.result = -1 ∨ valid ∧ final.Completed source write data) ∧
      (source.Clean → (∀ sink, write = some sink → sink.Willing) → valid →
        final.Completed source write data) := by
  intro data tail valid
  have split := overhead_split iv digest
  simp only [decryptStream]
  rcases readIv_correct iv source (by omega) with
    ⟨rest, failed, unclean⟩ | ⟨ivData, rest, stored, ivLength, joined, same⟩
  · rw [failed]
    exact ⟨_, rfl, .inl rfl, fun clean => absurd clean unclean⟩
  have whole : ¬ (iv = true ∧ ivData.length ≠ ivSize) := by
    rintro ⟨rfl, short⟩
    exact short (by simpa [overhead] using ivLength)
  have count := congrArg List.length joined
  rw [List.length_append] at count
  rw [stored]
  simp only [if_neg whole]
  obtain ⟨last, state, looped, settledLoop⟩ := decryptLoop_correct evp digest rest
    { ctx := startCtx key iv (Block.ofBytes ivSize ivData), hashed := [], buffer := [],
      writer := { write := write, total := 0 } } positive (Nat.zero_le _) (Int.le_refl 0)
    (by simp only [List.length_nil]; omega)
  simp only [looped, Option.bind_eq_bind, Option.bind_some]
  rcases settledLoop.cases (fun ended => ended.elim fun _ done => done.decrypted.sent.valid (Int.le_refl 0)) with
    ⟨failed, refused⟩ | ⟨valid', front, done⟩
  · rw [decryptFinal_failed evp digest failed, Option.bind_some,
      decryptVerify_failed evp digest failed]
    exact ⟨_, rfl, .inl failed, fun clean willing _ =>
      absurd ⟨same.trans clean, willing⟩ refused⟩
  have total := done.decrypted.sent.total
  have pieces := congrArg List.length done.split
  have held := done.kept
  simp only [Cipher.update_length, List.length_append, List.length_nil, Nat.zero_add,
    Int.zero_add] at total pieces held
  have enough : overhead false digest ≤ state.buffer.length := by
    have smaller : overhead false digest ≤ padding digest := by cases digest <;> decide
    omega
  obtain ⟨next, finished, settled⟩ :=
    decryptEnd_correct evp digest done.decrypted rfl valid' enough (by omega)
  have pieces' : source.contents = ivData ++ (front ++ state.buffer) := by
    rw [done.split]
    exact joined.symm
  have ends := plainText_ends evp key iv digest ivLength enough front
  have reached : (evp.update (startCtx key iv (Block.ofBytes ivSize ivData)) front).2 = state.ctx :=
    done.decrypted.ctx.symm
  simp only [← pieces', reached] at ends
  simp only [← ends.1, ← ends.2] at settled
  rw [finished, Option.bind_some]
  have completed (sent : Writer.Sent { write := write, total := 0 }
      (decryptVerify evp digest next).writer data) :
      StreamResult.Completed source write
        { result := (decryptVerify evp digest next).writer.total, read := some last,
          write := (decryptVerify evp digest next).writer.write } data :=
    ⟨by simpa using sent.total, sent.accepted, sent.refusals, same.symm.trans done.clean⟩
  exact ⟨_, rfl, settled.outcome.imp_right fun right => ⟨right.1, completed right.2⟩,
    fun _ willing right => completed (settled.succeeds ⟨willing, right⟩).2⟩

theorem stream_refines_oneShot (evp : Cipher) (key : SessionKey) (iv digest : Bool)
    {readsize : Nat} (large : digestPaddedSize < readsize)
    (small : (readsize + blockSize : Int) ≤ intMax) :
    (∀ (source : Source Byte) (write : Option (Sink Byte)) (fill : Iv),
      (source.contents.length + overhead iv digest : Int) ≤ intMax →
      ∃ final cipher,
        encryptStream evp key (some source) write iv digest readsize fill = some final ∧
        (source.contents ≠ [] →
          encrypt evp key (some source.contents) source.contents.length true iv digest fill =
            some ((cipher.length : Int), cipher)) ∧
        (source.contents = [] →
          cipher = (if iv then fill.val else []) ++
            if digest then (evp.update (startCtx key iv fill) (evp.sha1 []).val).1 else []) ∧
        (source.Clean → (∀ sink, write = some sink → sink.Willing) →
          final.result = cipher.length ∧
          final.write.map Sink.accepted = write.map fun sink => sink.accepted ++ cipher) ∧
        (final.Failed source write → final.result = -1)) ∧
    (∀ (source : Source Byte) (write : Option (Sink Byte)),
      overhead iv digest < source.contents.length →
      (source.contents.length : Int) ≤ intMax →
      ∃ final plain,
        decryptStream evp key (some source) write iv digest readsize = some final ∧
        (source.Clean → (∀ sink, write = some sink → sink.Willing) →
          decrypt evp key (some source.contents) source.contents.length true iv digest =
            some (final.result, plain) ∧
          (final.result ≠ -1 →
            final.write.map Sink.accepted = write.map fun sink => sink.accepted ++ plain)) ∧
        (final.Failed source write → final.result = -1)) := by
  refine ⟨?_, ?_⟩
  · intro source write fill fits
    obtain ⟨final, run, outcome, succeeds⟩ := encryptStream_correct evp key source write iv digest
      fill (by omega) small fits
    refine ⟨final, cipherText evp key iv digest fill source.contents, run, ?_, ?_, ?_, ?_⟩
    · exact fun present => encrypt_correct evp key iv digest fill present (by omega)
    · intro empty
      cases digest <;> simp [cipherText, empty]
    · intro clean willing
      have completed := succeeds clean willing
      exact ⟨completed.result, completed.accepted⟩
    · intro failed
      exact outcome.resolve_right fun completed => completed.not_failed failed
  · intro source write long fits
    have room : padding digest < readsize :=
      Nat.lt_of_le_of_lt (by cases digest <;> decide) large
    obtain ⟨final, run, outcome, succeeds⟩ :=
      decryptStream_correct evp key source write iv digest room long fits
    have oneShot := decrypt_correct evp key iv digest long fits
    simp only at oneShot
    split at oneShot
    next invalid =>
      have failed : final.result = -1 :=
        outcome.resolve_right fun done => invalid.2 (done.1 invalid.1)
      refine ⟨final, [], run, fun _ _ => ⟨?_, fun valid => absurd failed valid⟩, fun _ => failed⟩
      rw [oneShot, failed]
    next valid =>
      refine ⟨final, (plainText evp key iv source.contents).take
        (source.contents.length - overhead iv digest), run, ?_, ?_⟩
      · intro clean willing
        have completed := succeeds clean willing fun used =>
          Decidable.not_not.1 fun differ => valid ⟨used, differ⟩
        rw [oneShot, completed.result]
        exact ⟨rfl, fun _ => completed.accepted⟩
      · intro failed
        exact outcome.resolve_right fun done => done.2.not_failed failed

theorem stream_refines_oneShot_default :
    digestPaddedSize < 1024 ∧ ∃ final,
      encryptStream zeroCipher (Block.zero _) (some [.data 1 [2, 3], .data 4 []])
        (some ⟨[], [.accept 3]⟩) true true 1024 (Block.zero _) = some final ∧
      final.result = 32 := by
  refine ⟨by decide, ?_⟩
  obtain ⟨final, cipher, run, oneShot, -, succeeds, -⟩ :=
    (stream_refines_oneShot zeroCipher (Block.zero _) true true
      (by decide : digestPaddedSize < 1024) (by decide)).1 [.data 1 [2, 3], .data 4 []]
      (some ⟨[], [.accept 3]⟩) (Block.zero _) (by decide)
  have willing (sink : Sink Byte) (same : some ⟨[], [.accept 3]⟩ = some sink) : sink.Willing := by
    obtain rfl := Option.some.inj same
    exact ⟨by decide, by decide⟩
  have written := oneShot (by decide)
  rw [encrypt_correct _ _ _ _ _ (by decide) (by decide)] at written
  have length : (cipherText zeroCipher (Block.zero _) true true (Block.zero _)
      [1, 2, 3, 4]).length = (cipher.length : Int) := congrArg Prod.fst (Option.some.inj written)
  rw [cipherText_length] at length
  exact ⟨final, run, (succeeds rfl willing).1.trans length.symm⟩

-- `readsize + EVP_CIPHER_CTX_block_size` leaves the range, and so does the one-shot total
theorem stream_overflow :
    encryptStream zeroCipher (Block.zero _) (some []) none false false 2147483647 (Block.zero _) =
        none ∧
      ∃ plain : Bytes, plain = List.replicate 2147483647 0 ∧
        encrypt zeroCipher (Block.zero _) (some plain) plain.length true true true
          (Block.zero _) = none := by
  refine ⟨?_, _, rfl, encrypt_overflow _ _ _ _ List.length_replicate _⟩
  have large : checked ((2147483647 : Nat) + blockSize) = none := by rfl
  simp only [encryptStream, sendIv, Bool.false_eq_true, if_false, Option.bind_eq_bind,
    Option.bind_some, Int.lt_irrefl, large, Option.bind_none]

end Ptp.Key
