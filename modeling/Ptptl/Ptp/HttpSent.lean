import Ptptl.Library.Pieces
import Ptptl.Ptp.HttpMessage

set_option autoImplicit false

/-! # What reading and writing leave alone -/

namespace Ptp

open CInt Chunked

namespace Connection

theorem writeAll_reads {conn next : Connection} {data : Bytes} {size written : Int}
    (wrote : conn.writeAll data size = some (written, next)) :
    next.unget = conn.unget ∧ next.socket = conn.socket := by
  unfold writeAll at wrote
  split at wrote
  next =>
    cases wrote
    exact ⟨rfl, rfl⟩
  next =>
    split at wrote
    next => contradiction
    next => split at wrote <;> cases wrote <;> exact ⟨rfl, rfl⟩

theorem read_sent (conn : Connection) (size : Nat) : (conn.read size).2.sent = conn.sent := by
  cases result : conn.read size with
  | mk piece next =>
    cases piece with
    | some piece => exact (read_some result).2.2.2.2
    | none =>
      unfold read at result
      split at result
      next => simp at result
      next =>
        split at result
        next emptied got =>
          simp only [get, Prod.mk.injEq] at got
          obtain ⟨-, rfl⟩ := got
          rw [← (Prod.mk.inj result).2]
        next => simp at result

theorem readAll_sent (conn : Connection) (size : Nat) : (conn.readAll size).2.sent = conn.sent :=
  gather_keeps read_sent size conn

end Connection

namespace Http

theorem sendHttp_reads {conn next : Connection} {start hdr : Bytes} {data type : Option Bytes}
    {size status : Int} (sent : sendHttp conn start hdr data type size = some (status, next)) :
    next.unget = conn.unget ∧ next.socket = conn.socket := by
  simp only [sendHttp, Option.bind_eq_bind, Option.bind_eq_some_iff] at sent
  obtain ⟨⟨written, middle⟩, wrote, sent⟩ := sent
  have first := Connection.writeAll_reads wrote
  dsimp only at sent
  generalize (if size = -1 then _ else _ : Int) = size at *
  split at sent
  next =>
    cases sent
    exact first
  next =>
    cases data with
    | none =>
      cases sent
      exact first
    | some data =>
      obtain ⟨⟨more, last⟩, wrote', sent⟩ := Option.bind_eq_some_iff.1 sent
      have second := Connection.writeAll_reads wrote'
      cases sent
      exact ⟨second.1.trans first.1, second.2.trans first.2⟩

theorem readHdrLoop_sent {maxsize : Int} (total : Nat) (buffer : Bytes) (conn : Connection)
    {result : Option Bytes} {last : Connection}
    (read : readHdrLoop maxsize total buffer conn = some (result, last)) :
    last.sent = conn.sent := by
  induction total, buffer, conn using readHdrLoop.induct maxsize with
  | case1 total buffer conn full bounded =>
    rw [readHdrLoop, if_pos full, if_pos bounded] at read
    cases read
    rfl
  | case2 buffer conn unlimited full =>
    rw [readHdrLoop, if_pos full, if_neg unlimited, dif_pos rfl] at read
    contradiction
  | case3 total buffer conn full unlimited nonzero overflow =>
    rw [readHdrLoop, if_pos full, if_neg unlimited, dif_neg nonzero] at read
    split at read
    next => contradiction
    next grown again =>
      rw [overflow] at again
      contradiction
  | case4 total buffer conn full unlimited nonzero grown growth ih =>
    rw [readHdrLoop_grow full unlimited nonzero growth] at read
    exact ih read
  | case5 total buffer conn some' next failed =>
    rw [readHdrLoop_fail some' failed] at read
    cases read
    rw [← Connection.read_sent conn (total - buffer.length - 1), failed]
  | case6 total buffer conn some' piece next reads text' after ended =>
    simp only [readHdrLoop_read some' reads, ended, Option.some.injEq, Prod.mk.injEq] at read
    obtain ⟨stop, _, cut⟩ := Option.map_eq_some_iff.1 ended
    obtain ⟨-, rfl⟩ := Prod.mk.injEq .. ▸ cut
    obtain ⟨-, rfl⟩ := read
    rw [← Connection.read_sent conn (total - buffer.length - 1), reads]
    rfl
  | case7 total buffer conn some' next reads unseen =>
    simp only [readHdrLoop_read some' reads, unseen, if_true, Option.some.injEq,
      Prod.mk.injEq] at read
    obtain ⟨-, rfl⟩ := read
    rw [← Connection.read_sent conn (total - buffer.length - 1), reads]
  | case8 total buffer conn some' piece next reads unseen more ih =>
    simp only [readHdrLoop_read some' reads, unseen, if_neg more] at read
    rw [ih read, ← Connection.read_sent conn (total - buffer.length - 1), reads]

theorem readHttpHdr_sent {ulong : Nat} {given : Bool} {maxsize : Int} {conn next : Connection}
    {hdr : Option Header} (read : readHttpHdr ulong conn given maxsize = some (hdr, next)) :
    next.sent = conn.sent := by
  unfold readHttpHdr at read
  split at read
  next =>
    cases read
    rfl
  next =>
    cases given
    case' false => obtain ⟨_, -, read⟩ := Option.bind_eq_some_iff.1 read
    all_goals
      obtain ⟨⟨buffer, last⟩, looped, made⟩ := Option.bind_eq_some_iff.1 read
      have kept := readHdrLoop_sent _ [] conn looped
      cases buffer with
      | none =>
        cases made
        exact kept
      | some buffer =>
        cases buffer <;>
          · cases made
            exact kept

theorem readBodyLoop_sent {maxsize : Int} (total : Nat) (data : Bytes) (conn : Connection)
    {result : Bytes × Int} {last : Connection}
    (read : readBodyLoop maxsize total data conn = some (result, last)) : last.sent = conn.sent := by
  induction total, data, conn using readBodyLoop.induct maxsize with
  | case1 total data conn next failed =>
    rw [readBodyLoop, failed] at read
    cases read
    rw [← Connection.readAll_sent conn (total - data.length - 1), failed]
  | case2 total data conn piece next result ended =>
    rw [readBodyLoop, result] at read
    simp only [if_pos ended, Option.some.injEq, Prod.mk.injEq] at read
    rw [← read.2, ← Connection.readAll_sent conn (total - data.length - 1), result]
  | case3 data conn piece next result full =>
    rw [readBodyLoop, result] at read
    simp only [if_neg full, dif_pos] at read
    contradiction
  | case4 total data conn piece next result full nonzero overflow =>
    rw [readBodyLoop, result] at read
    simp only [if_neg full, dif_neg nonzero] at read
    split at read
    next => contradiction
    next grown again =>
      rw [overflow] at again
      contradiction
  | case5 total data conn piece next result full nonzero grown doubled ih =>
    rw [readBodyLoop_grow result full nonzero doubled] at read
    rw [ih read, ← Connection.readAll_sent conn (total - data.length - 1), result]

theorem readHttp_sent {ulong : Nat} {conn next : Connection} {message : Option Message}
    (read : readHttp ulong conn (-1) = some (message, next)) : next.sent = conn.sent := by
  cases header : readHttpHdr ulong conn false (-1) with
  | none => simp [readHttp, header] at read
  | some outcome =>
    obtain ⟨hdr, middle⟩ := outcome
    cases hdr with
    | none =>
      simp only [readHttp, header, Int.reduceNeg, Int.lt_irrefl, if_false, Option.bind_eq_bind,
        Option.bind_some] at read
      cases read
      exact readHttpHdr_sent header
    | some hdr =>
      rw [readHttp_header header] at read
      obtain ⟨total, -, read⟩ := Option.bind_eq_some_iff.1 read
      obtain ⟨⟨body, last⟩, looped, same⟩ := Option.map_eq_some_iff.1 read
      rw [← (Prod.mk.inj same).2]
      exact (readBodyLoop_sent total.toNat [] middle looped).trans (readHttpHdr_sent header)

end Http

end Ptp
