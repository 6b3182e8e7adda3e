import Ptptl.Ptp.HttpStops

set_option autoImplicit false

/-! # A header that is read and put back -/

namespace Ptp.Http

open Chunked Search

theorem readHdrLoop_queue {maxsize : Int} (bounded : 0 ≤ maxsize) (total : Nat) (buffer : Bytes)
    (conn : Connection) {text : Bytes} {last : Connection}
    (found : readHdrLoop maxsize total buffer conn = some (some text, last)) :
    text.length + last.unget.length ≤ max (buffer.length + conn.unget.length) total := by
  induction total, buffer, conn using readHdrLoop.induct maxsize with
  | case1 total buffer conn full _ =>
    rw [readHdrLoop, if_pos full, if_pos bounded, Option.some.injEq, Prod.mk.injEq,
      Option.some.injEq] at found
    obtain ⟨rfl, rfl⟩ := found
    exact Nat.le_max_left _ _
  | case2 buffer conn unlimited | case3 _ buffer conn _ unlimited
  | case4 _ buffer conn _ unlimited => exact absurd bounded unlimited
  | case5 total buffer conn some' next failed =>
    rw [readHdrLoop_fail some' failed] at found
    cases found
  | case6 total buffer conn some' piece next result text' after cut =>
    have taken := Connection.read_queue result
    simp only [readHdrLoop_read some' result, cut, Option.some.injEq, Prod.mk.injEq] at found
    obtain ⟨stop, blank, same⟩ := Option.map_eq_some_iff.1 cut
    obtain ⟨rfl, rfl⟩ := Prod.mk.injEq .. ▸ same
    obtain ⟨rfl, rfl⟩ := found
    have length := congrArg List.length (List.take_append_drop stop (buffer ++ piece))
    simp only [List.length_append] at length
    rw [Connection.putBack, List.length_append]
    omega
  | case7 total buffer conn some' next result none =>
    have taken := Connection.read_queue result
    simp only [readHdrLoop_read some' result, none, if_true, Option.some.injEq,
      Prod.mk.injEq] at found
    obtain ⟨rfl, rfl⟩ := found
    rw [List.length_nil] at taken
    omega
  | case8 total buffer conn some' piece next result none more ih =>
    have taken := Connection.read_queue result
    simp only [readHdrLoop_read some' result, none, if_neg more] at found
    have later := ih found
    rw [List.length_append] at later
    omega

theorem readHttpHdr_queue {ulong : Nat} {maxsize : Int} (bounded : 0 ≤ maxsize)
    {conn next : Connection} {hdr : Header}
    (found : readHttpHdr ulong conn true maxsize = some (some hdr, next)) :
    ((hdr.text.length + next.unget.length : Nat) : Int) ≤ max (conn.unget.length : Int) maxsize := by
  have allowed : ¬ (maxsize < -1 ∨ maxsize < 0) := by omega
  simp only [readHttpHdr, true_and, if_neg allowed, if_pos bounded, Bool.not_true,
    Bool.false_eq_true, if_false] at found
  obtain ⟨⟨buffer, last⟩, looped, made⟩ := Option.bind_eq_some_iff.1 found
  cases buffer with
  | none => cases made
  | some buffer =>
    have bound := readHdrLoop_queue bounded _ _ _ looped
    cases buffer with
    | nil => cases made
    | cons first others =>
      cases made
      have shorter := cString_length_le (first :: others)
      simp only [List.length_nil, Nat.zero_add] at bound ⊢
      omega

/-- A header that is put back is read again, as if it had not been read before, and what follows it
stays. The queue is never longer than it was, or than the header's buffer. -/
theorem readHttpHdr_again (ulong : Nat) {header : Bytes} (whole : Whole header) {maxsize : Int}
    (short : (header.length : Int) < maxsize - 1) {conn : Connection} {rest : List (Option Byte)}
    (same : conn.events = header.map some ++ rest) :
    ∃ hdr first second, readHttpHdr ulong conn true maxsize = some (some hdr, first) ∧
      hdr.text = header ∧
      ((hdr.text.length + first.unget.length : Nat) : Int) ≤ max (conn.unget.length : Int) maxsize ∧
      readHttpHdr ulong (first.putBack hdr.text) true maxsize = some (some hdr, second) ∧
      second.events = rest ∧
      ∀ size, Delivered size rest → ∃ last,
        second.readAll size = (some ((front rest).take size), last) ∧
          last.events = rest.drop size := by
  have allowed : Allowed true maxsize header.length := .limited (by omega)
  obtain ⟨first, result, left⟩ := readHttpHdr_whole ulong whole allowed same
  have back : (first.putBack header).events = header.map some ++ rest := by
    rw [Connection.putBack_events, left]
  obtain ⟨second, again, behind⟩ := readHttpHdr_whole ulong whole allowed back
  refine ⟨_, first, second, result, rfl, readHttpHdr_queue (by omega) result, again, behind, ?_⟩
  intro size delivered
  rw [← behind] at delivered ⊢
  exact Connection.follows.gather_some size second delivered

/-- A request in two pieces, the second one with the start of what follows, and then a failure. -/
theorem readHttpHdr_again_get :
    let header := ascii "GET /gets/" ++ crlf ++ crlf
    let conn : Connection :=
      { unget := ascii "GET /"
        socket := [.data 103 (ascii "ets/" ++ crlf ++ crlf ++ ascii "body"), .failure]
        sent := ⟨[], []⟩ }
    (Whole header ∧ (header.length : Int) < 1024 - 1 ∧
      conn.events = header.map some ++ ((ascii "body").map some ++ [none])) ∧
    ∃ hdr first second, readHttpHdr 4294967296 conn true 1024 = some (some hdr, first) ∧
      hdr.text = header ∧
      ((hdr.text.length + first.unget.length : Nat) : Int) ≤ max (conn.unget.length : Int) 1024 ∧
      readHttpHdr 4294967296 (first.putBack hdr.text) true 1024 = some (some hdr, second) ∧
      second.events = (ascii "body").map some ++ [none] ∧
      ∀ size, Delivered size ((ascii "body").map some ++ [none]) → ∃ last,
        second.readAll size = (some ((front ((ascii "body").map some ++ [none])).take size), last) ∧
          last.events = ((ascii "body").map some ++ [none]).drop size := by
  intro header conn
  have whole : Whole header := ⟨by decide, by decide +kernel, by decide +kernel⟩
  have short : (header.length : Int) < 1024 - 1 := by decide
  have same : conn.events = header.map some ++ ((ascii "body").map some ++ [none]) := by
    decide +kernel
  exact ⟨⟨whole, short, same⟩, readHttpHdr_again 4294967296 whole short same⟩

end Ptp.Http
