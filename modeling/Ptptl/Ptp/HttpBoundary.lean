import Mathlib.Data.Nat.Find
import Ptptl.Ptp.HttpStops

set_option autoImplicit false

/-! # The end of a header, however its stream is cut into reads -/

namespace Ptp.Http

open Chunked Search

/-- `ReadHttpHdr` gives one header, and leaves the same bytes, for all cuts of a stream. -/
def OneBoundary (ulong : Nat) (text : Bytes) : Prop :=
  ∃ hdr rest, ∀ conn : Connection, conn.unget = [] → conn.socket.Clean →
    conn.socket.contents = text → ∃ next, readHttpHdr ulong conn false (-1) = some (hdr, next) ∧
      next.remaining = rest

/-- A CRLF CRLF behind the first LF LF does not come into the buffer with it. -/
def Steady (text : Bytes) : Prop :=
  ∀ stop ∈ lfEnd text, ∀ later ∈ crlfEnd text, stop < later →
    ∃ times, stop < 512 * Nat.pow 2 times ∧ 512 * Nat.pow 2 times ≤ later

/-- The header, or the whole stream when there is no end of it, fits in the buffers. -/
def Holdable (text : Bytes) : Prop :=
  (∃ stop, (stop ∈ crlfEnd text ∨ stop ∈ lfEnd text) ∧ stop < headerLimit) ∨
    text.length + 1 < headerLimit

theorem strstr_end_le {pattern text : Bytes} {stop : Nat}
    (ends : stop ∈ (strstr text pattern).map (· + pattern.length)) : stop ≤ text.length := by
  obtain ⟨position, found, rfl⟩ := Option.map_eq_some_iff.1 ends
  exact find_le found

theorem crlfEnd_le {text : Bytes} {stop : Nat} (ends : stop ∈ crlfEnd text) : stop ≤ text.length :=
  Nat.le_trans (strstr_end_le ends) (cString_length_le text)

theorem exists_ends {text : Bytes} (some' : (headerEnd text).isSome) : ∃ stop, Ends text stop := by
  classical
  have least : ∃ size, (headerEnd (text.take size)).isSome :=
    ⟨text.length, by rwa [List.take_length]⟩
  obtain ⟨stop, found⟩ := Option.isSome_iff_exists.1 (Nat.find_spec least)
  obtain ⟨bound, again⟩ := headerEnd_take found
  rw [List.length_take] at bound
  rw [List.take_take, Nat.min_eq_left (by omega)] at again
  have reached : Nat.find least ≤ stop := Nat.find_min' least (by rw [again]; rfl)
  refine ⟨stop, again, fun size early => ?_⟩
  have before := Nat.find_min least (Nat.lt_of_lt_of_le early (by omega))
  simpa using before

theorem Ends.le {text : Bytes} {stop other : Nat} (ends : Ends text stop)
    (there : other ∈ crlfEnd text ∨ other ∈ lfEnd text) : stop ≤ other := by
  have seen : (headerEnd (text.take other)).isSome := headerEnd_isSome.2
    (there.imp (fun blank => ⟨other, blank, Nat.le_refl _⟩) fun blank => ⟨other, blank, Nat.le_refl _⟩)
  by_contra early
  rw [ends.first other (by omega)] at seen
  cases seen

theorem Holdable.small {text : Bytes} (holdable : Holdable text) {stop : Nat}
    (ends : Ends text stop) : stop < headerLimit := by
  rcases holdable with ⟨other, there, small⟩ | short
  · exact Nat.lt_of_le_of_lt (ends.le there) small
  · have inside := ends.inside
    omega

theorem Holdable.short {text : Bytes} (holdable : Holdable text) (absent : headerEnd text = none) :
    text.length + 1 < headerLimit := by
  rw [headerEnd_eq, Option.or_eq_none_iff] at absent
  rcases holdable with ⟨other, blank | blank, -⟩ | short
  · rw [absent.1] at blank
    cases blank
  · rw [absent.2] at blank
    cases blank
  · exact short

theorem headerEnd_cases {text : Bytes} {size stop : Nat}
    (found : headerEnd (text.take size) = some stop) :
    crlfEnd text = some stop ∨ lfEnd text = some stop ∧ ∀ later ∈ crlfEnd text, size < later := by
  rw [headerEnd_take_eq] at found
  rcases Option.or_eq_some_iff.1 found with blank | ⟨none, blank⟩
  · exact .inl (Option.filter_eq_some_iff.1 blank).1
  · refine .inr ⟨(Option.filter_eq_some_iff.1 blank).1, fun later blank' => ?_⟩
    rw [blank', Option.filter_some] at none
    by_contra early
    rw [if_pos (by simpa using early)] at none
    cases none

theorem Steady.stops {text : Bytes} (steady : Steady text) {stop seen queued : Nat}
    (ends : Ends text stop) (there : Seen (-1) queued text stop seen) :
    headerEnd (text.take seen) = some stop := by
  have block := there.block.resolve_left (by decide)
  have reached := there.reached
  rw [headerEnd_take_eq]
  rcases headerEnd_cases ends.here with blank | ⟨blank, before⟩
  · rw [blank, Option.filter_some, if_pos (decide_eq_true reached)]
    rfl
  · have unseen : (crlfEnd text).filter (· ≤ seen) = none := by
      cases other : crlfEnd text with
      | none => rfl
      | some later =>
        obtain ⟨times, above, below⟩ := steady stop blank later other (before later other)
        have within := block times above
        rw [Option.filter_some, if_neg (by simp; omega)]
    rw [unseen, blank, Option.filter_some, if_pos (decide_eq_true reached)]
    rfl

theorem Grown.start (stop : Nat) : Grown (-1) 512 stop := by
  refine .inr ⟨⟨0, rfl⟩, fun times _ => ?_⟩
  have positive := Nat.pow_pos (n := times) (by decide : 0 < 2)
  change 512 ≤ 512 * 2 ^ times
  omega

theorem readHttpHdr_stops (ulong : Nat) {text : Bytes} {stop : Nat} (ends : Ends text stop)
    (small : stop < headerLimit) {conn : Connection} (arrives : front conn.events = text) :
    ∃ seen last next, Seen (-1) conn.arrivals.available text stop seen ∧
      headerEnd (text.take seen) = some last ∧
      readHttpHdr ulong conn false (-1) = some (headerOf ulong (text.take last), next) ∧
      next.events = conn.events.drop last := by
  have positive : 0 < stop := by
    rcases Nat.eq_zero_or_pos stop with rfl | positive
    · exact absurd ends.here (by simp [headerEnd, cString, strstr, find, crlf])
    · exact positive
  have fits : Fits (-1) 512 stop := ⟨by decide, small⟩
  obtain ⟨seen, last, next, there, found, looped, left⟩ := readHdrLoop_stops ends 512 [] conn fits
    (Grown.start stop) arrives positive (by decide)
  rw [List.length_nil, Nat.zero_add] at there
  rw [List.length_nil, Nat.sub_zero] at left
  refine ⟨seen, last, next, there, found, ?_, left⟩
  rw [readHttpHdr_unlimited, looped]
  rfl

theorem Steady.boundary (ulong : Nat) {text : Bytes} (steady : Steady text)
    (holdable : Holdable text) : ∃ hdr rest, ∀ conn : Connection, conn.socket.Clean →
      conn.remaining = text → ∃ next, readHttpHdr ulong conn false (-1) = some (hdr, next) ∧
        next.remaining = rest := by
  by_cases ended : (headerEnd text).isSome
  next =>
    obtain ⟨stop, ends⟩ := exists_ends ended
    have small := holdable.small ends
    refine ⟨headerOf ulong (text.take stop), text.drop stop, fun conn clean same => ?_⟩
    have events : conn.events = text.map some := by rw [Connection.events_clean clean, same]
    obtain ⟨seen, last, next, there, found, result, left⟩ :=
      readHttpHdr_stops ulong ends small (by rw [events, front_map])
    obtain rfl : stop = last := Option.some.inj ((steady.stops ends there).symm.trans found)
    refine ⟨next, result, ?_⟩
    rw [events, ← List.map_drop] at left
    exact (Connection.clean_of_events left).2
  next =>
    have absent : headerEnd text = none := by simpa using ended
    have short := holdable.short absent
    refine ⟨headerOf ulong text, [], fun conn clean same => ?_⟩
    have events : conn.events = text.map some := by rw [Connection.events_clean clean, same]
    obtain ⟨next, looped, left⟩ := readHdrLoop_ended absent short 512 [] text conn events rfl
      (by decide)
    refine ⟨next, ?_, (Connection.clean_of_events left).2⟩
    rw [readHttpHdr_unlimited, looped]
    rfl

/-! ## Two cuts -/

def cutConn (text : Bytes) (size : Nat) : Connection where
  unget := []
  socket := Source.prepend (text.take size) (Source.prepend (text.drop size) [])
  sent := ⟨[], []⟩

theorem cutConn_clean (text : Bytes) (size : Nat) : (cutConn text size).socket.Clean := by
  simp [cutConn, Source.Clean]

theorem cutConn_contents (text : Bytes) (size : Nat) :
    (cutConn text size).socket.contents = text := by
  simp [cutConn]

theorem cutConn_available {text : Bytes} {size : Nat} (inside : size ≤ text.length)
    (positive : 0 < size) : (cutConn text size).arrivals.available = size := by
  have length := List.length_take_of_le inside
  simp only [cutConn, Connection.arrivals, Source.prepend]
  cases first : text.take size with
  | nil =>
    rw [first, List.length_nil] at length
    omega
  | cons head tail =>
    rw [first, List.length_cons] at length
    exact length

theorem cutConn_events (text : Bytes) (size : Nat) :
    (cutConn text size).events = text.map some := by
  rw [Connection.events_clean (cutConn_clean text size), Connection.remaining, cutConn_contents]
  rfl

theorem ends_lf {text : Bytes} {stop later : Nat} (blank : stop ∈ lfEnd text)
    (blank' : later ∈ crlfEnd text) (before : stop < later) : Ends text stop where
  here := by
    rw [headerEnd_take_eq, blank, blank', Option.filter_some, Option.filter_some,
      if_neg (by simpa using before), if_pos (by simp)]
    rfl
  first size early := by
    rw [headerEnd_take_eq, blank, blank', Option.filter_some, Option.filter_some,
      if_neg (by simp; omega), if_neg (by simpa using early)]
    rfl

/-- In one piece the CRLF CRLF comes into the buffer with the LF LF. -/
theorem Seen.late {text : Bytes} {stop seen later : Nat}
    (there : Seen (-1) text.length text stop seen) (blank : later ∈ crlfEnd text)
    (apart : ¬ ∃ times, stop < 512 * Nat.pow 2 times ∧ 512 * Nat.pow 2 times ≤ later) :
    headerEnd (text.take seen) = some later := by
  have reached : later ≤ seen := by
    rcases there.filled.resolve_left (by decide) (Nat.le_refl _) with rfl | ⟨times, filled⟩
    · exact crlfEnd_le blank
    · have above : stop < 512 * Nat.pow 2 times := by
        have beyond := there.reached
        omega
      by_contra short
      exact apart ⟨times, above, by omega⟩
  rw [headerEnd_take_eq, blank, Option.filter_some, if_pos (decide_eq_true reached)]
  rfl

theorem OneBoundary.steady {ulong : Nat} {text : Bytes} (boundary : OneBoundary ulong text)
    (holdable : Holdable text) : Steady text := by
  obtain ⟨hdr, rest, reads⟩ := boundary
  intro stop blank later blank' before
  by_contra apart
  have ends := ends_lf blank blank' before
  have positive : 0 < stop := by
    obtain ⟨position, -, rfl⟩ := Option.map_eq_some_iff.1 blank
    omega
  have small := holdable.small ends
  have inside := crlfEnd_le blank'
  have result (size : Nat) : ∃ seen last,
      Seen (-1) (cutConn text size).arrivals.available text stop seen ∧
      headerEnd (text.take seen) = some last ∧ text.drop last = rest := by
    obtain ⟨seen, last, next, there, found, result, left⟩ := readHttpHdr_stops ulong ends small
      (by rw [cutConn_events text size, front_map])
    obtain ⟨other, again, same⟩ :=
      reads (cutConn text size) rfl (cutConn_clean text size) (cutConn_contents text size)
    rw [result, Option.some.injEq, Prod.mk.injEq] at again
    obtain ⟨-, rfl⟩ := again
    rw [cutConn_events, ← List.map_drop] at left
    exact ⟨seen, last, there, found, (Connection.clean_of_events left).2.symm.trans same⟩
  -- the first piece ends with the LF LF
  have first : text.drop stop = rest := by
    obtain ⟨seen, last, there, found, same⟩ := result stop
    rw [cutConn_available (by omega) positive] at there
    obtain rfl : seen = stop := Nat.le_antisymm (there.cut (Nat.le_refl _)) there.reached
    rw [ends.here, Option.some.injEq] at found
    rwa [found]
  -- the first piece is all of the stream
  have second : text.drop later = rest := by
    obtain ⟨seen, last, there, found, same⟩ := result text.length
    rw [cutConn_available (Nat.le_refl _) (by omega)] at there
    rw [there.late blank' apart, Option.some.injEq] at found
    rwa [found]
  have lengths := congrArg List.length (first.trans second.symm)
  rw [List.length_drop, List.length_drop] at lengths
  omega

theorem OneBoundary.holdable {ulong : Nat} {text : Bytes} (boundary : OneBoundary ulong text) :
    Holdable text := by
  obtain ⟨hdr, rest, reads⟩ := boundary
  by_contra large
  rw [Holdable, not_or, not_exists] at large
  have absent (size : Nat) (below : size < headerLimit) : headerEnd (text.take size) = none := by
    rw [← Option.not_isSome_iff_eq_none, headerEnd_isSome]
    rintro (⟨stop, blank, reached⟩ | ⟨stop, blank, reached⟩)
    · exact large.1 stop ⟨.inl blank, by omega⟩
    · exact large.1 stop ⟨.inr blank, by omega⟩
  obtain ⟨next, result, -⟩ := reads (cutConn text 0) rfl (cutConn_clean _ _) (cutConn_contents _ _)
  have overflows := readHdrLoop_overflows absent (Nat.le_of_not_lt large.2) 512 []
    (cutConn text 0) ⟨0, rfl⟩ (by decide) (by rw [cutConn_events, front_map]; rfl) (by decide)
  rw [readHttpHdr_unlimited, overflows] at result
  cases result

theorem oneBoundary_iff (ulong : Nat) (text : Bytes) :
    OneBoundary ulong text ↔ Steady text ∧ Holdable text := by
  constructor
  next =>
    intro boundary
    exact ⟨boundary.steady boundary.holdable, boundary.holdable⟩
  next =>
    rintro ⟨steady, holdable⟩
    obtain ⟨hdr, rest, reads⟩ := steady.boundary ulong holdable
    refine ⟨hdr, rest, fun conn none clean same => reads conn clean ?_⟩
    rw [Connection.remaining, none, same]
    rfl

/-- An LF LF before the CRLF CRLF, in a stream of ten bytes. -/
theorem oneBoundary_lost : ¬ ∀ (ulong : Nat) (text : Bytes), OneBoundary ulong text := by
  intro always
  have boundary := always 4294967296 (ascii "A\n\nB" ++ crlf ++ crlf ++ ascii "C")
  have steady := boundary.steady boundary.holdable
  obtain ⟨times, above, below⟩ := steady 3 (by decide +kernel) 8 (by decide +kernel) (by decide)
  have positive := Nat.pow_pos (n := times) (by decide : 0 < 2)
  change 512 * 2 ^ times ≤ 8 at below
  omega

end Ptp.Http
