import Ptptl.Library.Bounded
import Ptptl.Library.Runs
import Ptptl.Library.Events
import Ptptl.Ptp.KeyStream

set_option autoImplicit false

/-! # The buffer of the streaming functions, with each access to it checked -/

namespace Ptp.Key

open CInt Chunked Bounded

/-- The loop of `Encrypt(Read, Write)` over a buffer of `size` bytes. -/
def encryptLoopIn (evp : Cipher) (digest : Bool) (readsize : Nat) (size : Int)
    (state : EncryptState) : Except Fault EncryptState :=
  -- `ReadAll` may fill the buffer
  (access size 0 readsize).bind fun _ =>
    match _filled : readAll state.source readsize with
    | (none, source) => .ok { state with source := source, writer := state.writer.fail }
    | (some [], source) => .ok { state with source := source }
    | (some (head :: tail), source) => do
      -- the digest, the cipher and `WriteAll` take what was read
      access size 0 (head :: tail).length
      let hashed := if digest then state.hashed ++ head :: tail else state.hashed
      let (buffer, ctx) := evp.update state.ctx (head :: tail)
      let writer ← orOverflow (state.writer.send buffer)
      let next := { ctx := ctx, hashed := hashed, source := source, writer := writer }
      if writer.total < 0 then return next
      encryptLoopIn evp digest readsize size next
termination_by state.source.contents.length
decreasing_by exact readAll_shrinks _filled

def encryptDigestIn (evp : Cipher) (digest : Bool) (size : Int) (state : EncryptState) :
    Except Fault EncryptState :=
  if 0 ≤ state.writer.total ∧ digest then do
    access size 0 digestSize
    orOverflow (encryptDigest evp digest state)
  else .ok state

def encryptFinalIn (size : Int) (state : EncryptState) : Except Fault EncryptState :=
  if 0 ≤ state.writer.total then do
    access size 0 finalData.length
    orOverflow (encryptFinal state)
  else .ok state

/-- `Encrypt(Read, Write)` with its buffer. -/
def encryptIn (evp : Cipher) (key : SessionKey) (read : Option (Source Byte))
    (write : Option (Sink Byte)) (iv digest : Bool) (readsize : Nat) (fill : Iv) :
    Except Fault StreamResult :=
  match read with
  | none => .ok { result := -1, read := none, write := write }
  | some source => do
    let writer ← orOverflow (sendIv iv fill { write := write, total := 0 })
    if writer.total < 0 then
      return { result := -1, read := some source, write := writer.write }
    let size ← orOverflow (checked (readsize + blockSize))
    let state ← encryptLoopIn evp digest readsize size
      { ctx := startCtx key iv fill, hashed := [], source := source, writer := writer }
    let state ← encryptDigestIn evp digest size state
    let state ← encryptFinalIn size state
    return { result := state.writer.total, read := some state.source, write := state.writer.write }

/-- What is done with the buffer once it is filled; `size` may be negative for a moment. -/
def decryptBufferIn (evp : Cipher) (digest : Bool) (readsize : Nat) (state : DecryptState) :
    Except Fault DecryptState := do
  let size : Int := if digest then state.buffer.length - digestPaddedSize else state.buffer.length
  if size > 0 then
    access readsize 0 size
    if digest then
      -- memmove of what is held back
      access readsize size digestPaddedSize
      access readsize 0 digestPaddedSize
    orOverflow (decryptBuffer evp digest state)
  else return state

def decryptLoopIn (evp : Cipher) (digest : Bool) (readsize : Nat) (source : Source Byte)
    (state : DecryptState) : Except Fault (Source Byte × DecryptState) :=
  (access readsize state.buffer.length (readsize - state.buffer.length)).bind fun _ =>
    match _filled : readAll source (readsize - state.buffer.length) with
    | (none, source) => .ok (source, { state with writer := state.writer.fail })
    | (some [], source) => do
      let next ← decryptBufferIn evp digest readsize state
      return (source, next)
    | (some (head :: tail), source) => do
      let next ← decryptBufferIn evp digest readsize
        { state with buffer := state.buffer ++ head :: tail }
      if next.writer.total < 0 then return (source, next)
      decryptLoopIn evp digest readsize source next
termination_by source.contents.length
decreasing_by exact readAll_shrinks _filled

def decryptFinalIn (evp : Cipher) (digest : Bool) (readsize : Nat) (state : DecryptState) :
    Except Fault DecryptState :=
  -- the size without the digest may be negative
  if 0 ≤ state.writer.total then do
    access readsize 0 state.buffer.length
    access readsize state.buffer.length finalData.length
    let size : Int := state.buffer.length + finalData.length - if digest then digestSize else 0
    access readsize 0 size
    let next ← orOverflow (decryptFinal evp digest state)
    if 0 ≤ next.writer.total ∧ digest then
      access readsize size digestSize
    return decryptVerify evp digest next
  else .ok state

/-- `Decrypt(Read, Write)` with its buffer of `readsize` bytes. -/
def decryptIn (evp : Cipher) (key : SessionKey) (read : Option (Source Byte))
    (write : Option (Sink Byte)) (iv digest : Bool) (readsize : Nat) : Except Fault StreamResult :=
  match read with
  | none => .ok { result := -1, read := none, write := write }
  | some source =>
    match readIv iv source with
    | (none, source) => .ok { result := -1, read := some source, write := write }
    | (some ivData, source) =>
      if iv ∧ ivData.length ≠ ivSize then
        .ok { result := -1, read := some source, write := write }
      else do
        let (source, state) ← decryptLoopIn evp digest readsize source
          { ctx := startCtx key iv (Block.ofBytes ivSize ivData), hashed := [], buffer := [],
            writer := { write := write, total := 0 } }
        let state ← decryptFinalIn evp digest readsize state
        return { result := state.writer.total, read := some source, write := state.writer.write }

theorem readAll_le {source rest : Source Byte} {size : Nat} {piece : Bytes}
    (filled : readAll source size = (some piece, rest)) : piece.length ≤ size :=
  (Source.gather_some filled).2.2.1

section

variable {evp : Cipher} {digest : Bool} {readsize : Nat} {size : Int} {state : EncryptState}
  {rest : Source Byte}

def EncryptState.after (evp : Cipher) (digest : Bool) (state : EncryptState) (rest : Source Byte)
    (piece : Bytes) (writer : Writer) : EncryptState where
  ctx := (evp.update state.ctx piece).2
  hashed := if digest then state.hashed ++ piece else state.hashed
  source := rest
  writer := writer

theorem encryptLoop_fails (filled : readAll state.source readsize = (none, rest)) :
    encryptLoop evp digest readsize state =
      some { state with source := rest, writer := state.writer.fail } := by
  rw [encryptLoop]
  split
  next again => simp_all
  next again => simp_all
  next again => simp_all

theorem encryptLoop_ends (filled : readAll state.source readsize = (some [], rest)) :
    encryptLoop evp digest readsize state = some { state with source := rest } := by
  rw [encryptLoop]
  split
  next again => simp_all
  next again => simp_all
  next again => simp_all

theorem encryptLoop_next {head : Byte} {tail : Bytes}
    (filled : readAll state.source readsize = (some (head :: tail), rest)) :
    encryptLoop evp digest readsize state =
      (state.writer.send (evp.update state.ctx (head :: tail)).1).bind fun writer =>
        if writer.total < 0 then some (state.after evp digest rest (head :: tail) writer)
        else encryptLoop evp digest readsize
          (state.after evp digest rest (head :: tail) writer) := by
  rw [encryptLoop]
  split
  next again => simp_all
  next again => simp_all
  next head' tail' rest' again =>
    rw [filled] at again
    simp only [Prod.mk.injEq, Option.some.injEq, List.cons.injEq] at again
    obtain ⟨⟨rfl, rfl⟩, rfl⟩ := again
    rfl

theorem encryptLoopIn_eq (room : (readsize : Int) ≤ size) :
    encryptLoopIn evp digest readsize size state =
      orOverflow (encryptLoop evp digest readsize state) := by
  induction length : state.source.contents.length using Nat.strongRecOn generalizing state with
  | ind count ih =>
    have filling : access size 0 readsize = .ok () :=
      access_front (by omega) (by omega)
    rw [encryptLoopIn, filling]
    simp only [Except.bind]
    split
    next source filled => rw [encryptLoop_fails filled, orOverflow_some]
    next source filled => rw [encryptLoop_ends filled, orOverflow_some]
    next head tail source filled =>
      have bound := readAll_le filled
      have shorter := readAll_shrinks filled
      have taking : access size 0 (head :: tail).length = .ok () :=
        access_front (by omega) (by omega)
      rw [encryptLoop_next filled, taking]
      simp only [bind, Except.bind]
      cases sent : state.writer.send (evp.update state.ctx (head :: tail)).1 with
      | none => rfl
      | some writer =>
        have later := @ih source.contents.length (by omega)
          (state.after evp digest source (head :: tail) writer) rfl
        by_cases failed : writer.total < 0
        next => simp [failed, pure, Except.pure, EncryptState.after]
        next =>
          simp only [orOverflow_some, failed, if_false, Option.bind_some]
          exact later

end

theorem decryptBufferIn_eq (evp : Cipher) (digest : Bool) {readsize : Nat} (state : DecryptState)
    (held : state.buffer.length ≤ readsize) :
    decryptBufferIn evp digest readsize state = orOverflow (decryptBuffer evp digest state) := by
  have whole : decryptBufferIn evp digest readsize state =
      if padding digest < state.buffer.length then orOverflow (decryptBuffer evp digest state)
      else .ok state := by
    cases digest with
    | false =>
      simp only [decryptBufferIn, padding, Bool.false_eq_true, if_false]
      by_cases some : 0 < state.buffer.length
      · have taking : access readsize 0 state.buffer.length = .ok () :=
          access_front (by omega) (by omega)
        simp [some, taking, bind, Except.bind]
      · simp [some, pure, Except.pure]
    | true =>
      simp only [decryptBufferIn, padding, if_true]
      by_cases some : digestPaddedSize < state.buffer.length
      · have taking : access readsize 0 (state.buffer.length - digestPaddedSize) = .ok () :=
          access_front (by omega) (by omega)
        have moving : access readsize (state.buffer.length - digestPaddedSize) digestPaddedSize =
            .ok () := access_inside (by omega) (by omega) (by omega)
        have moved : access readsize 0 digestPaddedSize = .ok () :=
          access_front (by omega) (by omega)
        simp [some, taking, moving, moved, bind, Except.bind]
      · simp [some, pure, Except.pure]
  rw [whole]
  split
  next => rfl
  next none => rw [decryptBuffer_eq, if_neg none, orOverflow_some]

section

variable {evp : Cipher} {digest : Bool} {readsize : Nat} {source rest : Source Byte}
  {state : DecryptState}

theorem decryptLoop_fails
    (filled : readAll source (readsize - state.buffer.length) = (none, rest)) :
    decryptLoop evp digest readsize source state =
      some (rest, { state with writer := state.writer.fail }) := by
  rw [decryptLoop]
  split
  next again => simp_all
  next again => simp_all
  next again => simp_all

theorem decryptLoop_ends
    (filled : readAll source (readsize - state.buffer.length) = (some [], rest)) :
    decryptLoop evp digest readsize source state =
      (decryptBuffer evp digest state).map fun next => (rest, next) := by
  rw [decryptLoop]
  split
  next again => simp_all
  next again =>
    rw [filled] at again
    simp only [Prod.mk.injEq] at again
    rw [← again.2]
    cases decryptBuffer evp digest state <;> rfl
  next again => simp_all

theorem decryptLoop_next {head : Byte} {tail : Bytes}
    (filled : readAll source (readsize - state.buffer.length) = (some (head :: tail), rest)) :
    decryptLoop evp digest readsize source state =
      (decryptBuffer evp digest { state with buffer := state.buffer ++ head :: tail }).bind
        fun next =>
          if next.writer.total < 0 then some (rest, next)
          else decryptLoop evp digest readsize rest next := by
  rw [decryptLoop]
  split
  next again => simp_all
  next again => simp_all
  next head' tail' rest' again =>
    rw [filled] at again
    simp only [Prod.mk.injEq, Option.some.injEq, List.cons.injEq] at again
    obtain ⟨⟨rfl, rfl⟩, rfl⟩ := again
    rfl

theorem decryptBuffer_left {next : DecryptState} (done : decryptBuffer evp digest state = some next) :
    next.buffer.length = min (padding digest) state.buffer.length := by
  rw [decryptBuffer_eq] at done
  split at done
  next more =>
    simp only [decryptPart, Option.bind_eq_bind, Option.bind_eq_some_iff] at done
    obtain ⟨writer, -, same⟩ := done
    rw [← Option.some.inj same, List.length_drop]
    omega
  next none =>
    rw [← Option.some.inj done]
    omega

theorem decryptLoopIn_eq (held : state.buffer.length ≤ readsize) :
    decryptLoopIn evp digest readsize source state =
      orOverflow (decryptLoop evp digest readsize source state) := by
  induction length : source.contents.length using Nat.strongRecOn generalizing source state with
  | ind count ih =>
    have filling : access readsize state.buffer.length (readsize - state.buffer.length) = .ok () :=
      access_inside (by omega) (by omega) (by omega)
    rw [decryptLoopIn, filling]
    simp only [Except.bind]
    split
    next rest filled => rw [decryptLoop_fails filled, orOverflow_some]
    next rest filled =>
      rw [decryptLoop_ends filled, decryptBufferIn_eq evp digest state held]
      cases decryptBuffer evp digest state <;> rfl
    next head tail rest filled =>
      have bound := readAll_le filled
      have shorter := readAll_shrinks filled
      have within : (state.buffer ++ head :: tail).length ≤ readsize := by
        rw [List.length_append]
        omega
      rw [decryptLoop_next filled, decryptBufferIn_eq evp digest _ within]
      cases done : decryptBuffer evp digest { state with buffer := state.buffer ++ head :: tail } with
      | none => rfl
      | some next =>
        have left := decryptBuffer_left done
        simp only at left
        have later := @ih rest.contents.length (by omega) rest next (by omega) rfl
        simp only [orOverflow_some, bind, Except.bind, Option.bind_some]
        split
        next => rfl
        next => exact later

end

section

variable {evp : Cipher} {key : SessionKey} {read : Option (Source Byte)}
  {write : Option (Sink Byte)} {iv digest : Bool} {readsize : Nat} {size : Int}
  {final : StreamResult}

theorem encryptDigestIn_ok {state next : EncryptState}
    (run : encryptDigestIn evp digest size state = .ok next) :
    encryptDigest evp digest state = some next := by
  rw [encryptDigestIn] at run
  split at run
  next =>
    simp only [Runs.bind_ok, orOverflow_ok] at run
    obtain ⟨_, -, run⟩ := run
    exact run
  next skipped =>
    rw [encryptDigest, if_neg skipped]
    exact congrArg some (Except.ok.inj run)

theorem encryptFinalIn_ok {state next : EncryptState}
    (run : encryptFinalIn size state = .ok next) : encryptFinal state = some next := by
  rw [encryptFinalIn] at run
  split at run
  next =>
    simp only [Runs.bind_ok, orOverflow_ok] at run
    obtain ⟨_, -, run⟩ := run
    exact run
  next skipped =>
    rw [encryptFinal, if_neg skipped]
    exact congrArg some (Except.ok.inj run)

theorem encryptIn_refines {fill : Iv}
    (run : encryptIn evp key read write iv digest readsize fill = .ok final) :
    encryptStream evp key read write iv digest readsize fill = some final := by
  cases read with
  | none => exact congrArg some (Except.ok.inj run)
  | some source =>
    simp only [encryptIn, Runs.bind_ok, orOverflow_ok] at run
    obtain ⟨writer, sent, run⟩ := run
    simp only [encryptStream, sent, Option.bind_eq_bind, Option.bind_some]
    split at run
    next failed =>
      rw [if_pos failed]
      exact congrArg some (Except.ok.inj run)
    next valid =>
      rw [if_neg valid]
      simp only [Runs.bind_ok, orOverflow_ok] at run
      obtain ⟨size, allocated, state, looped, hashed, digested, last, finished, run⟩ := run
      have enough : (readsize : Int) ≤ size := by
        have := (checked_eq_some.1 allocated).2
        omega
      rw [encryptLoopIn_eq enough, orOverflow_ok] at looped
      simp only [allocated, looped, encryptDigestIn_ok digested, encryptFinalIn_ok finished,
        Option.bind_some]
      exact congrArg some (Except.ok.inj run)

theorem decryptFinalIn_ok {state next : DecryptState}
    (run : decryptFinalIn evp digest readsize state = .ok next) :
    (decryptFinal evp digest state).map (decryptVerify evp digest) = some next := by
  rw [decryptFinalIn] at run
  split at run
  next =>
    simp only [Runs.bind_ok, orOverflow_ok] at run
    obtain ⟨_, -, _, -, _, -, last, finished, run⟩ := run
    rw [finished, Option.map_some]
    split at run
    next =>
      simp only [Runs.bind_ok] at run
      obtain ⟨_, -, run⟩ := run
      exact congrArg some (Except.ok.inj run)
    next => exact congrArg some (Except.ok.inj run)
  next invalid =>
    have unchecked : decryptVerify evp digest state = state := if_neg fun holds => invalid holds.1
    rw [decryptFinal, if_neg invalid, Option.map_some, unchecked]
    exact congrArg some (Except.ok.inj run)

theorem decryptIn_refines (run : decryptIn evp key read write iv digest readsize = .ok final) :
    decryptStream evp key read write iv digest readsize = some final := by
  cases read with
  | none => exact congrArg some (Except.ok.inj run)
  | some source =>
    cases fetched : readIv iv source with
    | mk data rest =>
      cases data with
      | none =>
        simp only [decryptIn, fetched] at run
        simp only [decryptStream, fetched]
        exact congrArg some (Except.ok.inj run)
      | some data =>
        simp only [decryptIn, fetched] at run
        simp only [decryptStream, fetched]
        split at run
        next short =>
          rw [if_pos short]
          exact congrArg some (Except.ok.inj run)
        next whole =>
          rw [if_neg whole]
          simp only [Runs.bind_ok] at run
          obtain ⟨pair, looped, last, finished, run⟩ := run
          obtain ⟨source', state⟩ := pair
          rw [decryptLoopIn_eq (Nat.zero_le readsize), orOverflow_ok] at looped
          have done := decryptFinalIn_ok finished
          rw [Option.map_eq_some_iff] at done
          obtain ⟨next, ended, verified⟩ := done
          simp only [Option.bind_eq_bind, looped, ended, Option.bind_some, verified]
          exact congrArg some (Except.ok.inj run)

end

end Ptp.Key
