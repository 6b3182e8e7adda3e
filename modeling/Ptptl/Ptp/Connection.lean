import Ptptl.Library.CInt
import Ptptl.Library.Arrivals
import Ptptl.Library.Events
import Ptptl.Ptp.Types

set_option autoImplicit false

namespace Ptp

open Chunked

/-- An open connection: the queue of bytes put back, what its socket delivers and accepts. -/
structure Connection where
  unget : Bytes
  socket : Source Byte
  sent : Sink Byte

namespace Connection

def remaining (conn : Connection) : Bytes := conn.unget ++ conn.socket.contents

def arrivals (conn : Connection) : Source Byte := conn.socket.prepend conn.unget

def get (conn : Connection) (size : Nat) : Bytes × Connection :=
  (conn.unget.take size, { conn with unget := conn.unget.drop size })

/-- `Read`; `none` is -1. -/
def read (conn : Connection) (size : Nat) : Option Bytes × Connection :=
  if size = 0 then (some [], conn)
  else
    match conn.get size with
    | ([], conn) =>
        let (result, socket) := conn.socket.read size
        (result, { conn with socket := socket })
    | (data, conn) => (some data, conn)

/-- `Unget`. -/
def putBack (conn : Connection) (data : Bytes) : Connection :=
  { conn with unget := data ++ conn.unget }

def readAll (conn : Connection) (size : Nat) : Option Bytes × Connection :=
  gather read size conn

/-- `WriteAll`: nothing is sent for a size that is not positive. -/
def writeAll (conn : Connection) (data : Bytes) (size : Int) : Option (Int × Connection) :=
  if size ≤ 0 then some (size, conn)
  else if data.length < size then none
  else
    match conn.sent.pour (data.take size.toNat) with
    | (none, sent) => some (-1, { conn with sent := sent })
    | (some written, sent) => some (written, { conn with sent := sent })

@[simp] theorem putBack_remaining (conn : Connection) (data : Bytes) :
    (conn.putBack data).remaining = data ++ conn.remaining := by
  simp [putBack, remaining]

theorem read_some {conn next : Connection} {size : Nat} {piece : Bytes}
    (result : conn.read size = (some piece, next)) :
    piece ++ next.remaining = conn.remaining ∧ piece.length ≤ size ∧
      next.socket.failures = conn.socket.failures ∧
      (piece = [] → 0 < size → conn.remaining = []) ∧ next.sent = conn.sent := by
  unfold read at result
  split at result
  next empty =>
    simp only [Prod.mk.injEq, Option.some.injEq] at result
    obtain ⟨rfl, rfl⟩ := result
    simp [empty]
  next positive =>
    obtain ⟨unget, socket, sent⟩ := conn
    simp only [get] at result
    split at result
    next got conn none =>
      simp only [Prod.mk.injEq] at none
      obtain ⟨none, rfl⟩ := none
      have drained : unget = [] := by
        cases unget with
        | nil => rfl
        | cons head tail => cases size <;> simp_all
      subst drained
      cases outcome : socket.read size with
      | mk first rest =>
        simp only [outcome, Prod.mk.injEq] at result
        obtain ⟨rfl, rfl⟩ := result
        obtain ⟨split, same, bound, ended⟩ := Source.read_some outcome
        refine ⟨by simpa [remaining] using split, bound, same, ?_, rfl⟩
        intro missing positive
        simp [remaining, ended missing positive]
    next data conn present some =>
      simp only [Prod.mk.injEq] at some
      obtain ⟨rfl, rfl⟩ := some
      simp only [Prod.mk.injEq, Option.some.injEq] at result
      obtain ⟨rfl, rfl⟩ := result
      refine ⟨?_, List.length_take_le _ _, rfl, fun missing => absurd missing present, rfl⟩
      simp [remaining, ← List.append_assoc]

theorem read_none {conn next : Connection} {size : Nat}
    (result : conn.read size = (none, next)) : next.socket.failures < conn.socket.failures := by
  unfold read at result
  split at result
  next => simp at result
  next =>
    split at result
    next emptied got =>
      simp only [get, Prod.mk.injEq] at got
      obtain ⟨-, rfl⟩ := got
      cases outcome : conn.socket.read size with
      | mk first rest =>
        simp only [outcome, Prod.mk.injEq] at result
        obtain ⟨rfl, rfl⟩ := result
        exact Nat.lt_of_succ_le (Nat.le_of_eq (Source.read_none outcome).2)
    next => simp at result

theorem read_queue {conn next : Connection} {size : Nat} {piece : Bytes}
    (result : conn.read size = (some piece, next)) :
    piece.length + next.unget.length ≤ max conn.unget.length size := by
  have bound := (read_some result).2.1
  obtain ⟨unget, socket, sent⟩ := conn
  unfold read at result
  split at result
  next =>
    simp only [Prod.mk.injEq, Option.some.injEq] at result
    obtain ⟨rfl, rfl⟩ := result
    rw [List.length_nil, Nat.zero_add]
    exact Nat.le_max_left _ _
  next positive =>
    cases unget with
    | nil =>
      simp only [get, List.take_nil, List.drop_nil, Prod.mk.injEq] at result
      obtain ⟨_, rfl⟩ := result
      exact Nat.le_trans bound (Nat.le_max_right _ _)
    | cons head tail =>
      obtain ⟨size, rfl⟩ := Nat.exists_eq_succ_of_ne_zero positive
      simp only [get, Nat.succ_eq_add_one, List.take_succ_cons, Prod.mk.injEq,
        Option.some.injEq] at result
      obtain ⟨rfl, rfl⟩ := result
      have length := congrArg List.length (List.take_append_drop size tail)
      rw [List.length_append] at length
      simp only [List.length_cons, List.drop_succ_cons]
      omega

@[simp] theorem arrivals_contents (conn : Connection) :
    conn.arrivals.contents = conn.remaining := Source.prepend_contents _ _

theorem arrivals_clean {conn : Connection} :
    conn.arrivals.Clean ↔ conn.socket.Clean := by
  simp [arrivals, Source.Clean]

theorem arrivals_read (conn : Connection) (size : Nat) (positive : 0 < size) :
    conn.arrivals.read size = ((conn.read size).1, (conn.read size).2.arrivals) := by
  obtain ⟨unget, socket, sent⟩ := conn
  have present : ¬ size = 0 := by omega
  cases unget with
  | nil => simp [arrivals, read, get, present, Source.prepend]
  | cons head tail =>
    cases size with
    | zero => exact absurd rfl present
    | succ size => simp [arrivals, read, get, Source.prepend, Source.read]

def events (conn : Connection) : List (Option Byte) := conn.arrivals.events

theorem follows : Follows read events where
  takes := by
    intro conn size piece next result positive
    have tracked := conn.arrivals_read size positive
    rw [result] at tracked
    exact Source.follows.takes tracked positive
  fails := by
    intro conn size next result positive
    have tracked := conn.arrivals_read size positive
    rw [result] at tracked
    exact Source.follows.fails tracked positive

@[simp] theorem putBack_events (conn : Connection) (data : Bytes) :
    (conn.putBack data).events = data.map some ++ conn.events := by
  simp [events, arrivals, putBack]

theorem events_clean {conn : Connection} (clean : conn.socket.Clean) :
    conn.events = conn.remaining.map some := by
  rw [events, (arrivals_clean.2 clean).events, arrivals_contents]

theorem clean_of_events {conn : Connection} {bytes : Bytes} (same : conn.events = bytes.map some) :
    conn.socket.Clean ∧ conn.remaining = bytes := by
  obtain ⟨clean, contents⟩ := Source.clean_of_events same
  exact ⟨arrivals_clean.1 clean, by rw [← arrivals_contents, contents]⟩

theorem clean_split {conn next : Connection} {text : Bytes} (clean : conn.socket.Clean)
    (whole : conn.events = text.map some ++ next.events) :
    text ++ next.remaining = conn.remaining ∧ next.socket.Clean := by
  rw [events_clean clean, List.map_eq_append_iff] at whole
  obtain ⟨first, others, same, here, later⟩ := whole
  obtain ⟨kept, rest⟩ := clean_of_events later.symm
  have start := (List.map_inj_right fun _ _ => Option.some.inj).1 here
  exact ⟨by rw [same, start, rest], kept⟩

theorem arrivals_readAll (conn : Connection) (size : Nat) :
    gather Source.read size conn.arrivals =
      ((conn.readAll size).1, (conn.readAll size).2.arrivals) :=
  gather_tracks arrivals_read size conn

theorem readAll_length {conn next : Connection} {size : Nat} {piece : Bytes}
    (result : conn.readAll size = (some piece, next)) : piece.length ≤ size := by
  have tracked := conn.arrivals_readAll size
  rw [result] at tracked
  exact (Source.gather_some tracked).2.2.1

theorem read_arrivals {conn : Connection} (clean : conn.socket.Clean) {size : Nat}
    (positive : 0 < size) : ∃ next,
      conn.read size = (some (conn.remaining.take (min size conn.arrivals.available)), next) ∧
        next.arrivals = conn.arrivals.advance (min size conn.arrivals.available) := by
  have tracked := conn.arrivals_read size positive
  rw [Source.read_available (arrivals_clean.2 clean) positive, arrivals_contents] at tracked
  obtain ⟨result, rest⟩ := Prod.mk.injEq .. ▸ tracked
  exact ⟨(conn.read size).2, Prod.ext result.symm rfl, rest.symm⟩

theorem read_front {conn : Connection} (clean : conn.socket.Clean) {front rest : Bytes}
    (same : conn.remaining = front ++ rest) {size : Nat} (positive : 0 < size)
    (small : front.length ≤ size) (arrived : front.length ≤ conn.arrivals.available) :
    ∃ more next, conn.read size = (some (front ++ more), next) ∧
      front ++ more ++ next.remaining = conn.remaining ∧
      next.socket.failures = conn.socket.failures ∧ next.sent = conn.sent := by
  obtain ⟨next, read, -⟩ := conn.read_arrivals clean positive
  obtain ⟨split, -, failures, -, sent⟩ := read_some read
  have most : front.length ≤ min size conn.arrivals.available := Nat.le_min.2 ⟨small, arrived⟩
  have start : conn.remaining.take (min size conn.arrivals.available) =
      front ++ rest.take (min size conn.arrivals.available - front.length) := by
    rw [same, List.take_append, List.take_of_length_le most]
  rw [start] at read split
  exact ⟨_, next, read, split, failures, sent⟩

theorem readAll_arrivals {conn : Connection} (clean : conn.socket.Clean) (size : Nat) : ∃ next,
    conn.readAll size = (some (conn.remaining.take size), next) ∧
      next.arrivals = conn.arrivals.advance size := by
  have tracked := conn.arrivals_readAll size
  rw [Source.gather_advance (arrivals_clean.2 clean), arrivals_contents] at tracked
  obtain ⟨result, rest⟩ := Prod.mk.injEq .. ▸ tracked
  exact ⟨(conn.readAll size).2, Prod.ext result.symm rfl, rest.symm⟩

theorem delivers : Delivers read remaining fun conn => conn.socket.Clean where
  step conn size clean positive := by
    cases outcome : conn.read size with
    | mk result next =>
      cases result with
      | none =>
        have failed := read_none outcome
        unfold Source.Clean at clean
        omega
      | some piece =>
        obtain ⟨split, bound, same, ended, -⟩ := read_some outcome
        refine ⟨piece, next, rfl, split, bound, ?_, same.trans clean⟩
        exact fun missing => ended missing positive

theorem readAll_correct (conn : Connection) (size : Nat) (clean : conn.socket.Clean) :
    ∃ next, conn.readAll size = (some (conn.remaining.take size), next) ∧
      next.remaining = conn.remaining.drop size ∧ next.socket.Clean :=
  delivers.gather size conn clean

theorem writeAll_correct (conn : Connection) (willing : conn.sent.Willing) (data : Bytes)
    {size : Int} (bound : size ≤ data.length) :
    ∃ next, conn.writeAll data size = some (size, next) ∧
      next.sent.accepted = conn.sent.accepted ++ data.take size.toNat ∧ next.sent.Willing := by
  by_cases empty : size ≤ 0
  next =>
    have none : size.toNat = 0 := by omega
    exact ⟨conn, by simp [writeAll, empty], by simp [none], willing⟩
  next =>
    have enough : ¬ (data.length : Int) < size := by omega
    obtain ⟨last, poured, added, kept⟩ := willing.pour (data.take size.toNat)
    refine ⟨{ conn with sent := last }, ?_, added, kept⟩
    have written : ((data.take size.toNat).length : Int) = size := by
      rw [List.length_take]
      omega
    simp only [writeAll, if_neg empty, if_neg enough, poured, written]

end Connection

end Ptp
