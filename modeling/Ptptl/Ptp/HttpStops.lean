import Ptptl.Ptp.HttpText

set_option autoImplicit false

/-!
# Where the loop over a header stops

The loop looks for the end of the header in what has arrived so far, which is some prefix of the
bytes that arrive before a failure.
-/

namespace Ptp.Http

open CInt Chunked Search

theorem readHdrLoop_grow {maxsize : Int} {total : Nat} {buffer : Bytes} {conn : Connection}
    {grown : Int} (full : total - buffer.length - 1 = 0) (unlimited : ¬ 0 ≤ maxsize)
    (nonzero : ¬ total = 0) (doubled : checked (total * 2 : Nat) = some grown) :
    readHdrLoop maxsize total buffer conn = readHdrLoop maxsize (total * 2) buffer conn := by
  rw [readHdrLoop, if_pos full, if_neg unlimited, dif_neg nonzero]
  split
  next overflow =>
    rw [doubled] at overflow
    cases overflow
  next => rfl

theorem readHdrLoop_read {maxsize : Int} {total : Nat} {buffer piece : Bytes}
    {conn next : Connection} (room : ¬ total - buffer.length - 1 = 0)
    (result : conn.read (total - buffer.length - 1) = (some piece, next)) :
    readHdrLoop maxsize total buffer conn =
      match ungetData next (buffer ++ piece) with
      | some (text, conn) => some (some text, conn)
      | none =>
          if piece = [] then some (some buffer, next)
          else readHdrLoop maxsize total (buffer ++ piece) next := by
  rw [readHdrLoop, if_neg room]
  split
  next last failed =>
    rw [result] at failed
    cases failed
  next other last again =>
    rw [result] at again
    cases again
    rfl

theorem readHdrLoop_fail {maxsize : Int} {total : Nat} {buffer : Bytes} {conn next : Connection}
    (room : ¬ total - buffer.length - 1 = 0)
    (failed : conn.read (total - buffer.length - 1) = (none, next)) :
    readHdrLoop maxsize total buffer conn = some (none, next) := by
  rw [readHdrLoop, if_neg room]
  split
  next last again =>
    rw [failed] at again
    cases again
    rfl
  next other last result =>
    rw [failed] at result
    cases result

def headerLimit : Nat := 1073741824

-- whether a header fits in the buffer of the caller, or in one that grows
def Fits (maxsize : Int) (total size : Nat) : Prop :=
  if 0 ≤ maxsize then size < total else 0 < total ∧ size < headerLimit

def Doubled (total : Nat) : Prop := ∃ times, total = 512 * Nat.pow 2 times

theorem Doubled.double {total : Nat} (doubled : Doubled total) : Doubled (total * 2) := by
  obtain ⟨times, rfl⟩ := doubled
  exact ⟨times + 1, Nat.mul_assoc 512 (Nat.pow 2 times) 2⟩

theorem Doubled.le_limit {total : Nat} (doubled : Doubled total) (fits : (total : Int) ≤ intMax) :
    total ≤ headerLimit := by
  obtain ⟨times, rfl⟩ := doubled
  have few : times ≤ 21 := by
    by_contra many
    have grown : Nat.pow 2 22 ≤ Nat.pow 2 times :=
      Nat.pow_le_pow_right (by decide : 0 < 2) (by omega : 22 ≤ times)
    have large : Nat.pow 2 22 = 4194304 := rfl
    unfold intMax at fits
    omega
  have grown : Nat.pow 2 times ≤ Nat.pow 2 21 := Nat.pow_le_pow_right (by decide : 0 < 2) few
  have large : Nat.pow 2 21 = 2097152 := rfl
  unfold headerLimit
  omega

theorem cString_take (text : Bytes) (size : Nat) :
    cString (text.take size) = (cString text).take size :=
  List.take_takeWhile.symm

def crlfEnd (text : Bytes) : Option Nat := (strstr (cString text) (crlf ++ crlf)).map (· + 4)

def lfEnd (text : Bytes) : Option Nat := (strstr (cString text) [lf, lf]).map (· + 2)

theorem headerEnd_eq (text : Bytes) : headerEnd text = (crlfEnd text).or (lfEnd text) := by
  unfold headerEnd crlfEnd lfEnd
  cases strstr (cString text) (crlf ++ crlf) <;> rfl

theorem crlfEnd_take (text : Bytes) (size : Nat) :
    crlfEnd (text.take size) = (crlfEnd text).filter (· ≤ size) := by
  rw [crlfEnd, crlfEnd, cString_take, strstr, strstr, find_take_eq, Option.filter_map]
  rfl

theorem lfEnd_take (text : Bytes) (size : Nat) :
    lfEnd (text.take size) = (lfEnd text).filter (· ≤ size) := by
  rw [lfEnd, lfEnd, cString_take, strstr, strstr, find_take_eq, Option.filter_map]
  rfl

theorem headerEnd_take_eq (text : Bytes) (size : Nat) :
    headerEnd (text.take size) =
      ((crlfEnd text).filter (· ≤ size)).or ((lfEnd text).filter (· ≤ size)) := by
  rw [headerEnd_eq, crlfEnd_take, lfEnd_take]

theorem headerEnd_isSome {text : Bytes} {size : Nat} :
    (headerEnd (text.take size)).isSome ↔
      (∃ stop ∈ crlfEnd text, stop ≤ size) ∨ ∃ stop ∈ lfEnd text, stop ≤ size := by
  have filtered (found : Option Nat) :
      (found.filter (· ≤ size)).isSome ↔ ∃ stop ∈ found, stop ≤ size := by
    cases found <;> simp
  rw [headerEnd_take_eq, Option.isSome_or, Bool.or_eq_true, filtered, filtered]

theorem headerEnd_mono {text : Bytes} {size more : Nat} (within : size ≤ more)
    (found : (headerEnd (text.take size)).isSome) : (headerEnd (text.take more)).isSome := by
  rw [headerEnd_isSome] at found ⊢
  exact found.imp (fun ⟨stop, ends, inside⟩ => ⟨stop, ends, Nat.le_trans inside within⟩)
    fun ⟨stop, ends, inside⟩ => ⟨stop, ends, Nat.le_trans inside within⟩

structure Ends (text : Bytes) (stop : Nat) : Prop where
  here : headerEnd (text.take stop) = some stop
  first : ∀ size < stop, headerEnd (text.take size) = none

section

variable {text : Bytes} {stop : Nat}

theorem Ends.inside (ends : Ends text stop) : stop ≤ text.length := by
  have bound := (headerEnd_take ends.here).1
  rw [List.length_take] at bound
  omega

theorem Ends.seen (ends : Ends text stop) {seen : Nat} (reached : stop ≤ seen) :
    ∃ last, headerEnd (text.take seen) = some last ∧ stop ≤ last ∧ last ≤ seen := by
  obtain ⟨last, found⟩ := Option.isSome_iff_exists.1
    (headerEnd_mono reached (by rw [ends.here]; rfl))
  obtain ⟨bound, again⟩ := headerEnd_take found
  rw [List.length_take] at bound
  have within : last ≤ seen := by omega
  refine ⟨last, found, ?_, within⟩
  by_contra early
  have none := ends.first last (by omega)
  rw [List.take_take, Nat.min_eq_left within, none] at again
  cases again

end

/-- How far a buffer that grows may be filled: a larger one is only made when the end is not in the
smaller one. -/
def Grown (maxsize : Int) (total stop : Nat) : Prop :=
  0 ≤ maxsize ∨ Doubled total ∧ ∀ times, stop < 512 * Nat.pow 2 times → total ≤ 512 * Nat.pow 2 times

/-- How many bytes are there when the end is seen, where the first `queued` ones come in one
piece. -/
structure Seen (maxsize : Int) (queued : Nat) (text : Bytes) (stop seen : Nat) : Prop where
  reached : stop ≤ seen
  inside : seen ≤ text.length
  block : 0 ≤ maxsize ∨ ∀ times, stop < 512 * Nat.pow 2 times → seen < 512 * Nat.pow 2 times
  filled : 0 ≤ maxsize ∨ (text.length ≤ queued →
    seen = text.length ∨ ∃ times, seen + 1 = 512 * Nat.pow 2 times)
  cut : stop ≤ queued → seen ≤ queued

theorem Grown.double {maxsize : Int} {total stop : Nat} (grown : Grown maxsize total stop)
    (large : total ≤ stop) : Grown maxsize (total * 2) stop := by
  rcases grown with bounded | ⟨doubled, least⟩
  · exact .inl bounded
  · refine .inr ⟨doubled.double, fun times above => ?_⟩
    obtain ⟨now, rfl⟩ := doubled
    have less : Nat.pow 2 now < Nat.pow 2 times := by omega
    have later : now < times := (Nat.pow_lt_pow_iff_right (by decide : 1 < 2)).1 less
    have twice : Nat.pow 2 (now + 1) ≤ Nat.pow 2 times := Nat.pow_le_pow_right (by decide) later
    have power : Nat.pow 2 (now + 1) = Nat.pow 2 now * 2 := rfl
    omega

/-- The buffer after a read call is still a start of what arrives, and is not full. -/
structure Filled (total : Nat) (buffer piece text : Bytes) (conn next : Connection) : Prop where
  same : (buffer ++ piece) ++ front next.events = text
  start : buffer ++ piece = text.take (buffer ++ piece).length
  room : (buffer ++ piece).length < total
  events : conn.events = piece.map some ++ next.events
  available : conn.arrivals.available ≠ 0 →
    piece.length = min (total - buffer.length - 1) conn.arrivals.available ∧
      (piece.length < conn.arrivals.available →
        next.arrivals.available = conn.arrivals.available - piece.length)

theorem filled {total : Nat} {buffer piece text : Bytes} {conn next : Connection}
    (some' : ¬ total - buffer.length - 1 = 0)
    (result : conn.read (total - buffer.length - 1) = (some piece, next))
    (same : buffer ++ front conn.events = text) : Filled total buffer piece text conn next := by
  obtain ⟨events, bound, -⟩ := Connection.follows.takes result (Nat.pos_of_ne_zero some')
  rw [events, front_append, ← List.append_assoc] at same
  refine ⟨same, ?_, ?_, events, fun present => ?_⟩
  · rw [← same, List.take_left]
  · rw [List.length_append]
    omega
  · have tracked := conn.arrivals_read _ (Nat.pos_of_ne_zero some')
    rw [result] at tracked
    exact Source.read_piece (Nat.pos_of_ne_zero some') present tracked

section

variable {maxsize : Int} {total stop : Nat} {buffer piece text : Bytes} {conn next : Connection}

theorem read_failed {size : Nat} (some' : ¬ size = 0) (failed : conn.read size = (none, next)) :
    front conn.events = [] := by
  rw [Connection.follows.fails failed (Nat.pos_of_ne_zero some')]
  rfl

theorem read_nothing {size : Nat} (some' : ¬ size = 0) (result : conn.read size = (some [], next)) :
    front conn.events = [] := by
  rw [(Connection.follows.takes result (Nat.pos_of_ne_zero some')).2.2 rfl]
  rfl

theorem arrives_of_lt (same : buffer ++ front conn.events = text)
    (short : buffer.length < text.length) : front conn.events ≠ [] := by
  intro nothing
  rw [← same, nothing, List.append_nil] at short
  exact Nat.lt_irrefl _ short

theorem Filled.cut_events (step : Filled total buffer piece text conn next) {last : Nat}
    (late : buffer.length ≤ last) (within : last ≤ (buffer ++ piece).length) :
    (next.putBack ((buffer ++ piece).drop last)).events =
      conn.events.drop (last - buffer.length) := by
  have tail : (buffer ++ piece).drop last = piece.drop (last - buffer.length) := by
    rw [List.drop_append, List.drop_of_length_le late, List.nil_append]
  have short : last - buffer.length ≤ (piece.map some).length := by
    rw [List.length_append] at within
    rw [List.length_map]
    omega
  rw [Connection.putBack_events, tail, step.events, List.drop_append_of_le_length short,
    List.map_drop]

theorem Filled.drop_events (step : Filled total buffer piece text conn next) {last : Nat}
    (late : (buffer ++ piece).length ≤ last) :
    next.events.drop (last - (buffer ++ piece).length) =
      conn.events.drop (last - buffer.length) := by
  rw [List.length_append] at late
  have gone : (piece.map some).drop (last - buffer.length) = [] := by
    apply List.drop_of_length_le
    rw [List.length_map]
    omega
  rw [step.events, List.drop_append, gone, List.nil_append, List.length_map, List.length_append,
    Nat.sub_sub]

theorem Filled.seen (step : Filled total buffer piece text conn next) (ends : Ends text stop)
    (grown : Grown maxsize total stop) (unfinished : buffer.length < stop)
    (reached : stop ≤ (buffer ++ piece).length) :
    Seen maxsize (buffer.length + conn.arrivals.available) text stop (buffer ++ piece).length := by
  have inside : (buffer ++ piece).length ≤ text.length := by
    have length := congrArg List.length step.same
    rw [List.length_append] at length
    omega
  refine ⟨reached, inside, ?_, ?_, ?_⟩
  · exact grown.imp_right fun least times above =>
      Nat.lt_of_lt_of_le step.room (least.2 times above)
  · refine grown.imp_right fun least queued => ?_
    obtain ⟨times, doubled⟩ := least.1
    have stopped := ends.inside
    -- a read call fills the buffer, or takes all that is there
    have length := (step.available (by omega)).1
    have room := step.room
    rw [List.length_append] at inside room ⊢
    by_cases enough : total - buffer.length - 1 ≤ conn.arrivals.available
    · exact .inr ⟨times, by omega⟩
    · exact .inl (by omega)
  · intro queued
    have length := (step.available (by omega)).1
    rw [List.length_append]
    omega

theorem Filled.queue (step : Filled total buffer piece text conn next)
    (before : (buffer ++ piece).length < stop)
    (queued : stop ≤ buffer.length + conn.arrivals.available) :
    (buffer ++ piece).length + next.arrivals.available =
      buffer.length + conn.arrivals.available := by
  rw [List.length_append] at before ⊢
  have left := (step.available (by omega)).2 (by omega)
  omega

theorem Filled.seen_later (step : Filled total buffer piece text conn next)
    (ends : Ends text stop) (before : (buffer ++ piece).length < stop) {seen : Nat}
    (there : Seen maxsize ((buffer ++ piece).length + next.arrivals.available) text stop seen) :
    Seen maxsize (buffer.length + conn.arrivals.available) text stop seen := by
  have inside := ends.inside
  refine ⟨there.reached, there.inside, there.block, ?_, ?_⟩
  · refine there.filled.imp_right fun filled queued => filled ?_
    rw [step.queue before (Nat.le_trans inside queued)]
    exact queued
  · intro queued
    have whole := step.queue before queued
    exact Nat.le_trans (there.cut (by omega)) (Nat.le_of_eq whole)

end

def Sized (maxsize : Int) (limit total : Nat) : Prop :=
  if 0 ≤ maxsize then total = limit
  else Doubled total ∧ total ≤ limit ∧ limit = headerLimit

theorem Sized.le {maxsize : Int} {limit total : Nat} (sized : Sized maxsize limit total) :
    total ≤ limit := by
  rw [Sized] at sized
  split at sized
  · exact Nat.le_of_eq sized
  · exact sized.2.1

theorem Sized.double {maxsize : Int} {limit total : Nat} {grown : Int}
    (sized : Sized maxsize limit total) (unlimited : ¬ 0 ≤ maxsize)
    (growth : checked (total * 2 : Nat) = some grown) : Sized maxsize limit (total * 2) := by
  rw [Sized, if_neg unlimited] at sized ⊢
  obtain ⟨doubled, -, rfl⟩ := sized
  exact ⟨doubled.double, doubled.double.le_limit (checked_eq_some.1 growth).1.2, rfl⟩

/-- What the loop gives of a stream: up to an end, all that fits, or all there is. -/
structure Found (maxsize : Int) (limit : Nat) (events : List (Option Byte)) (text : Bytes)
    (next : Connection) : Prop where
  whole : events = text.map some ++ next.events
  room : text.length < limit
  stops : (∃ seen, seen < limit ∧ headerEnd ((front events).take seen) = some text.length) ∨
    headerEnd text = none ∧ (0 ≤ maxsize ∧ text.length + 1 = limit ∨ next.events = [])

theorem readHdrLoop_found {maxsize : Int} {limit : Nat} {events : List (Option Byte)} (total : Nat)
    (buffer : Bytes) (conn : Connection) {text : Bytes} {last : Connection}
    (sized : Sized maxsize limit total) (whole : events = buffer.map some ++ conn.events)
    (absent : headerEnd buffer = none) (room : buffer = [] ∨ buffer.length < total)
    (present : text ≠ []) (found : readHdrLoop maxsize total buffer conn = some (some text, last)) :
    Found maxsize limit events text last := by
  have within := sized.le
  have arrives : front events = buffer ++ front conn.events := by rw [whole, front_append]
  induction total, buffer, conn using readHdrLoop.induct maxsize with
  | case1 total buffer conn full bounded =>
    rw [readHdrLoop, if_pos full, if_pos bounded, Option.some.injEq, Prod.mk.injEq,
      Option.some.injEq] at found
    obtain ⟨rfl, rfl⟩ := found
    have last := room.resolve_left present
    rw [Sized, if_pos bounded] at sized
    exact ⟨whole, by omega, .inr ⟨absent, .inl ⟨bounded, by omega⟩⟩⟩
  | case2 buffer conn unlimited full =>
    rw [readHdrLoop, if_pos full, if_neg unlimited, dif_pos rfl] at found
    cases found
  | case3 total buffer conn full unlimited nonzero overflow =>
    rw [readHdrLoop, if_pos full, if_neg unlimited, dif_neg nonzero] at found
    split at found
    next => cases found
    next grown again =>
      rw [overflow] at again
      cases again
  | case4 total buffer conn full unlimited nonzero grown growth ih =>
    rw [readHdrLoop_grow full unlimited nonzero growth] at found
    have doubled := sized.double unlimited growth
    exact ih doubled whole absent (room.imp_right fun inside => by omega) found doubled.le arrives
  | case5 total buffer conn some' next failed =>
    rw [readHdrLoop_fail some' failed] at found
    cases found
  | case6 total buffer conn some' piece next result text' after ended =>
    have step := filled some' result arrives.symm
    simp only [readHdrLoop_read some' result, ended, Option.some.injEq, Prod.mk.injEq] at found
    obtain ⟨stop, blank, cut⟩ := Option.map_eq_some_iff.1 ended
    obtain ⟨rfl, rfl⟩ := Prod.mk.injEq .. ▸ cut
    obtain ⟨rfl, rfl⟩ := found
    have inside := (headerEnd_take blank).1
    have length : ((buffer ++ piece).take stop).length = stop := List.length_take_of_le inside
    have filled := step.room
    refine ⟨?_, by omega, .inl ⟨(buffer ++ piece).length, by omega, ?_⟩⟩
    · rw [Connection.putBack_events, ← List.append_assoc, ← List.map_append,
        List.take_append_drop, whole, step.events, List.map_append, List.append_assoc]
    · rw [← step.start, blank, length]
  | case7 total buffer conn some' next result unseen =>
    obtain ⟨split, -, ended⟩ := Connection.follows.takes result (Nat.pos_of_ne_zero some')
    simp only [readHdrLoop_read some' result, unseen, if_true, Option.some.injEq,
      Prod.mk.injEq] at found
    obtain ⟨rfl, rfl⟩ := found
    have nothing := ended rfl
    rw [nothing, List.map_nil, List.nil_append] at split
    have last := room.resolve_left present
    refine ⟨?_, by omega, .inr ⟨absent, .inr split.symm⟩⟩
    rw [whole, nothing, ← split]
  | case8 total buffer conn some' piece next result unseen more ih =>
    have step := filled some' result arrives.symm
    simp only [readHdrLoop_read some' result, unseen, if_neg more] at found
    refine ih sized ?_ (Option.map_eq_none_iff.1 unseen) (.inr step.room) found within step.same.symm
    rw [whole, step.events, List.map_append, List.append_assoc]

theorem readHdrLoop_bounded {maxsize : Int} (bounded : 0 ≤ maxsize) (total : Nat) (buffer : Bytes)
    (conn : Connection) : ∃ found next, readHdrLoop maxsize total buffer conn = some (found, next) := by
  induction total, buffer, conn using readHdrLoop.induct maxsize with
  | case1 total buffer conn full _ =>
    exact ⟨some buffer, conn, by rw [readHdrLoop, if_pos full, if_pos bounded]⟩
  | case2 buffer conn unlimited | case3 _ buffer conn _ unlimited
  | case4 _ buffer conn _ unlimited => exact absurd bounded unlimited
  | case5 total buffer conn some' next failed =>
    exact ⟨none, next, readHdrLoop_fail some' failed⟩
  | case6 total buffer conn some' piece next result text after ended =>
    exact ⟨some text, after, by simp only [readHdrLoop_read some' result, ended]⟩
  | case7 total buffer conn some' next result unseen =>
    exact ⟨some buffer, next, by simp only [readHdrLoop_read some' result, unseen, if_true]⟩
  | case8 total buffer conn some' piece next result unseen more ih =>
    simp only [readHdrLoop_read some' result, unseen, if_neg more]
    exact ih

theorem readHdrLoop_stops {maxsize : Int} {text : Bytes} {stop : Nat} (ends : Ends text stop)
    (total : Nat) (buffer : Bytes) (conn : Connection) (fits : Fits maxsize total stop)
    (grown : Grown maxsize total stop) (same : buffer ++ front conn.events = text)
    (unfinished : buffer.length < stop) (room : buffer.length < total) :
    ∃ seen last next, Seen maxsize (buffer.length + conn.arrivals.available) text stop seen ∧
      headerEnd (text.take seen) = some last ∧
      readHdrLoop maxsize total buffer conn = some (some (text.take last), next) ∧
      next.events = conn.events.drop (last - buffer.length) := by
  induction total, buffer, conn using readHdrLoop.induct maxsize with
  | case1 total buffer conn full bounded =>
    rw [Fits, if_pos bounded] at fits
    omega
  | case2 buffer conn unlimited full => exact absurd room (Nat.not_lt_zero _)
  | case3 total buffer conn full unlimited nonzero overflow =>
    have large := checked_eq_none.1 overflow
    rw [Fits, if_neg unlimited, headerLimit] at fits
    unfold intMax intMin at large
    omega
  | case4 total buffer conn full unlimited nonzero growth doubled ih =>
    rw [Fits, if_neg unlimited] at fits
    have fits' : Fits maxsize (total * 2) stop := by
      rw [Fits, if_neg unlimited]
      exact ⟨by omega, fits.2⟩
    rw [readHdrLoop_grow full unlimited nonzero doubled]
    exact ih fits' (grown.double (by omega)) same unfinished (by omega)
  | case5 total buffer conn some' next failed =>
    have arrives := arrives_of_lt same (Nat.lt_of_lt_of_le unfinished ends.inside)
    exact absurd (read_failed some' failed) arrives
  | case6 total buffer conn some' piece next result text' after found =>
    have step := filled some' result same
    obtain ⟨last, blank, cut⟩ := Option.map_eq_some_iff.1 found
    obtain ⟨rfl, rfl⟩ := Prod.mk.injEq .. ▸ cut
    rw [step.start] at blank
    have reached : stop ≤ (buffer ++ piece).length := by
      by_contra early
      rw [ends.first _ (by omega)] at blank
      cases blank
    obtain ⟨other, again, late, within⟩ := ends.seen reached
    obtain rfl : last = other := Option.some.inj (blank.symm.trans again)
    refine ⟨(buffer ++ piece).length, last, next.putBack ((buffer ++ piece).drop last),
      step.seen ends grown unfinished reached, blank, ?_, step.cut_events (by omega) within⟩
    simp only [readHdrLoop_read some' result, found]
    rw [step.start, List.take_take, Nat.min_eq_left within]
  | case7 total buffer conn some' next result absent =>
    have arrives := arrives_of_lt same (Nat.lt_of_lt_of_le unfinished ends.inside)
    exact absurd (read_nothing some' result) arrives
  | case8 total buffer conn some' piece next result absent more ih =>
    have step := filled some' result same
    have blank := Option.map_eq_none_iff.1 absent
    have before : (buffer ++ piece).length < stop := by
      by_contra reached
      obtain ⟨last, found, -⟩ := ends.seen (Nat.le_of_not_lt reached)
      rw [← step.start, blank] at found
      cases found
    obtain ⟨seen, last, after, there, found, looped, rest⟩ :=
      ih fits grown step.same before step.room
    obtain ⟨other, again, late, -⟩ := ends.seen there.reached
    obtain rfl : last = other := Option.some.inj (found.symm.trans again)
    refine ⟨seen, last, after, step.seen_later ends before there, found, ?_,
      rest.trans (step.drop_events (by omega))⟩
    simp only [readHdrLoop_read some' result, absent, if_neg more]
    exact looped

theorem readHdrLoop_overflows {text : Bytes}
    (absent : ∀ size < headerLimit, headerEnd (text.take size) = none)
    (long : headerLimit ≤ text.length + 1) (total : Nat) (buffer : Bytes) (conn : Connection)
    (doubled : Doubled total) (fits : (total : Int) ≤ intMax)
    (same : buffer ++ front conn.events = text) (room : buffer.length < total) :
    readHdrLoop (-1) total buffer conn = none := by
  have limit := doubled.le_limit fits
  induction total, buffer, conn using readHdrLoop.induct (-1) with
  | case1 total buffer conn full bounded => exact absurd bounded (by decide)
  | case2 buffer conn unlimited full => exact absurd room (Nat.not_lt_zero _)
  | case3 total buffer conn full unlimited nonzero overflow =>
    rw [readHdrLoop, if_pos full, if_neg unlimited, dif_neg nonzero]
    split
    next => rfl
    next grown again =>
      rw [overflow] at again
      cases again
  | case4 total buffer conn full unlimited nonzero growth grown ih =>
    rw [readHdrLoop_grow full unlimited nonzero grown]
    have fits' := (checked_eq_some.1 grown).1.2
    have limit' := doubled.double.le_limit fits'
    exact ih doubled.double fits' same (by omega) limit'
  | case5 total buffer conn some' next failed =>
    exact absurd (read_failed some' failed) (arrives_of_lt same (by omega))
  | case6 total buffer conn some' piece next result text' after found =>
    have step := filled some' result same
    obtain ⟨last, blank, -⟩ := Option.map_eq_some_iff.1 found
    rw [step.start, absent _ (Nat.lt_of_lt_of_le step.room limit)] at blank
    cases blank
  | case7 total buffer conn some' next result none =>
    exact absurd (read_nothing some' result) (arrives_of_lt same (by omega))
  | case8 total buffer conn some' piece next result none present ih =>
    have step := filled some' result same
    simp only [readHdrLoop_read some' result, none, if_neg present]
    exact ih doubled fits step.same step.room limit

theorem readHdrLoop_ended {text : Bytes} (absent : headerEnd text = none)
    (short : text.length + 1 < headerLimit) (total : Nat) (buffer bytes : Bytes) (conn : Connection)
    (arrives : conn.events = bytes.map some) (same : buffer ++ bytes = text)
    (room : buffer.length < total) :
    ∃ next, readHdrLoop (-1) total buffer conn = some (some text, next) ∧ next.events = [] := by
  induction total, buffer, conn using readHdrLoop.induct (-1) generalizing bytes with
  | case1 total buffer conn full bounded => exact absurd bounded (by decide)
  | case2 buffer conn unlimited full => exact absurd room (Nat.not_lt_zero _)
  | case3 total buffer conn full unlimited nonzero overflow =>
    have large := checked_eq_none.1 overflow
    have length := congrArg List.length same
    rw [List.length_append] at length
    unfold headerLimit at short
    unfold intMax intMin at large
    omega
  | case4 total buffer conn full unlimited nonzero growth grown ih =>
    rw [readHdrLoop_grow full unlimited nonzero grown]
    exact ih bytes arrives same (by omega)
  | case5 total buffer conn some' next failed =>
    have fails := Connection.follows.fails failed (Nat.pos_of_ne_zero some')
    rw [fails] at arrives
    cases bytes <;> simp at arrives
  | case6 total buffer conn some' piece next result text' after found =>
    have arrived : buffer ++ front conn.events = text := by rw [arrives, front_map, same]
    have step := filled some' result arrived
    obtain ⟨last, blank, -⟩ := Option.map_eq_some_iff.1 found
    rw [step.start] at blank
    have inside : (buffer ++ piece).length ≤ text.length := by
      have length := congrArg List.length step.same
      rw [List.length_append] at length
      omega
    have seen := headerEnd_mono inside (by rw [blank]; rfl)
    rw [List.take_length, absent] at seen
    cases seen
  | case7 total buffer conn some' next result none =>
    obtain ⟨whole, -, ended⟩ := Connection.follows.takes result (Nat.pos_of_ne_zero some')
    rw [ended rfl] at arrives whole
    rw [eq_comm, List.map_eq_nil_iff] at arrives
    refine ⟨next, ?_, whole.symm⟩
    simp only [readHdrLoop_read some' result, none, if_true]
    rw [← same, arrives, List.append_nil]
  | case8 total buffer conn some' piece next result none present ih =>
    have arrived : buffer ++ front conn.events = text := by rw [arrives, front_map, same]
    have step := filled some' result arrived
    simp only [readHdrLoop_read some' result, none, if_neg present]
    have whole := step.events
    rw [arrives, List.map_eq_append_iff] at whole
    obtain ⟨first, others, rfl, here, later⟩ := whole
    have same' := step.same
    rw [← later, front_map] at same'
    exact ih others later.symm same' step.room

theorem readHttpHdr_loop {ulong : Nat} {maxsize : Int} {given : Bool} {text : Bytes}
    {conn next : Connection} (clean : (0 : Byte) ∉ text) (present : text ≠ [])
    (low : -1 ≤ maxsize) (bounded : given = true → 0 ≤ maxsize)
    (allocated : given = false → ∃ size,
      checked ((if 0 ≤ maxsize then maxsize else 512) + 1) = some size)
    (looped : readHdrLoop maxsize (if 0 ≤ maxsize then maxsize else 512).toNat [] conn =
      some (some text, next)) :
    readHttpHdr ulong conn given maxsize =
      some (some { text := text, status := status ulong text,
                   contentSize := contentSize ulong text }, next) := by
  have same := cString_eq clean
  cases text with
  | nil => exact absurd rfl present
  | cons first others =>
    cases given with
    | true =>
      have allowed : ¬ (maxsize < -1 ∨ maxsize < 0) := by
        have := bounded rfl
        omega
      simp [readHttpHdr, allowed, looped, same]
    | false =>
      obtain ⟨size, allocated⟩ := allocated rfl
      simp [readHttpHdr, low, allocated, looped, same]

/-- What `ReadHttpHdr` makes of the bytes of the loop. -/
def headerOf (ulong : Nat) (buffer : Bytes) : Option Header :=
  if buffer = [] then none
  else
    let text := cString buffer
    some { text := text, status := status ulong text, contentSize := contentSize ulong text }

theorem readHttpHdr_own (ulong : Nat) (conn : Connection) {maxsize size : Int}
    (low : -1 ≤ maxsize)
    (allocated : checked ((if 0 ≤ maxsize then maxsize else 512) + 1) = some size) :
    readHttpHdr ulong conn false maxsize =
      (readHdrLoop maxsize (if 0 ≤ maxsize then maxsize else 512).toNat [] conn).map
        fun result => (result.1.bind (headerOf ulong), result.2) := by
  have allowed : ¬ maxsize < -1 := by omega
  cases looped : readHdrLoop maxsize (if 0 ≤ maxsize then maxsize else 512).toNat [] conn with
  | none => simp [readHttpHdr, allowed, allocated, looped]
  | some result =>
    obtain ⟨buffer, next⟩ := result
    cases buffer with
    | none => simp [readHttpHdr, allowed, allocated, looped]
    | some buffer => cases buffer <;> simp [readHttpHdr, allowed, allocated, looped, headerOf]

theorem readHttpHdr_unlimited (ulong : Nat) (conn : Connection) :
    readHttpHdr ulong conn false (-1) =
      (readHdrLoop (-1) 512 [] conn).map fun result => (result.1.bind (headerOf ulong), result.2) :=
  readHttpHdr_own ulong conn (Int.le_refl (-1)) (show checked 513 = some 513 from rfl)

/-! ## A header that ends in one way only -/

structure Whole (header : Bytes) : Prop where
  clean : (0 : Byte) ∉ header
  ends : crlfEnd header = some header.length
  lines : lfEnd header = none

section

variable {header after : Bytes}

theorem Whole.present (whole : Whole header) : header ≠ [] := by
  rintro rfl
  exact absurd whole.ends (by decide)

theorem Whole.crlfEnd_append (whole : Whole header) (after : Bytes) :
    crlfEnd (header ++ after) = some header.length := by
  have ends := whole.ends
  obtain ⟨position, found, length⟩ := Option.map_eq_some_iff.1 ends
  rw [crlfEnd, strstr, cString_append whole.clean]
  rw [cString_eq whole.clean, strstr] at found
  rw [find_append found, Option.map_some, length]

theorem Whole.headerEnd_take (whole : Whole header) (after : Bytes) (size : Nat) :
    headerEnd ((header ++ after).take size) =
      if header.length ≤ size then some header.length else none := by
  rw [headerEnd_take_eq, whole.crlfEnd_append, Option.filter_some]
  by_cases reached : header.length ≤ size
  · rw [if_pos (decide_eq_true reached), if_pos reached]
    rfl
  · rw [if_neg (by simpa using reached), if_neg reached, Option.none_or, ← lfEnd_take,
      List.take_append_of_le_length (Nat.le_of_not_le reached), lfEnd_take, whole.lines]
    rfl

theorem Whole.isEnd (whole : Whole header) (after : Bytes) : Ends (header ++ after) header.length where
  here := by rw [whole.headerEnd_take, if_pos (Nat.le_refl _)]
  first size early := by rw [whole.headerEnd_take, if_neg (Nat.not_le_of_lt early)]

theorem PlainLines.whole {lines : List Bytes} (plain : PlainLines lines) (some' : lines ≠ []) :
    Whole (linesText lines ++ crlf) where
  clean := linesText_clean plain
  ends := by
    have blank := find_blank plain some' []
    rw [List.append_nil] at blank
    have size := find_le blank
    rw [crlfEnd, cString_eq (linesText_clean plain), strstr, blank]
    simp only [Option.map_some, Option.some.injEq, List.length_append, crlf, List.length_cons,
      List.length_nil] at size ⊢
    omega
  lines := by
    rw [lfEnd, cString_eq (linesText_clean plain), strstr, find_lf_blank plain]
    rfl

/-- The limits that a caller gives, and what a header may have under them. -/
def Allowed (given : Bool) (maxsize : Int) (size : Nat) : Prop :=
  match given with
  | true => (size : Int) < maxsize
  | false => maxsize = -1 ∧ size < headerLimit

theorem Allowed.limited {maxsize : Int} {size : Nat} (short : (size : Int) < maxsize) :
    Allowed true maxsize size := short

theorem Allowed.unlimited {size : Nat} (small : size < headerLimit) : Allowed false (-1) size :=
  ⟨rfl, small⟩

theorem readHttpHdr_whole (ulong : Nat) (whole : Whole header) {given : Bool} {maxsize : Int}
    (allowed : Allowed given maxsize header.length) {conn : Connection} {rest : List (Option Byte)}
    (same : conn.events = header.map some ++ rest) :
    ∃ next, readHttpHdr ulong conn given maxsize =
        some (some { text := header, status := status ulong header,
                     contentSize := contentSize ulong header }, next) ∧
      next.events = rest := by
  have positive := List.length_pos_of_ne_nil whole.present
  have ends := whole.isEnd (front rest)
  have arrives : [] ++ front conn.events = header ++ front rest := by
    rw [same, front_append, List.nil_append]
  have result (seen last : Nat) (next : Connection)
      (found : headerEnd ((header ++ front rest).take seen) = some last)
      (left : next.events = conn.events.drop (last - ([] : Bytes).length)) :
      last = header.length ∧ next.events = rest := by
    rw [whole.headerEnd_take] at found
    split at found
    next =>
      obtain rfl := Option.some.inj found
      refine ⟨rfl, ?_⟩
      rw [left, same, List.length_nil, Nat.sub_zero]
      exact List.drop_left' (List.length_map _)
    next => cases found
  -- the size of the first buffer, for both kinds of limits
  obtain ⟨low, bounded, allocated, fits, grown⟩ : -1 ≤ maxsize ∧ (given = true → 0 ≤ maxsize) ∧
      (given = false → ∃ size, checked ((if 0 ≤ maxsize then maxsize else 512) + 1) = some size) ∧
      Fits maxsize (if 0 ≤ maxsize then maxsize else 512).toNat header.length ∧
      Grown maxsize (if 0 ≤ maxsize then maxsize else 512).toNat header.length := by
    cases given with
    | true =>
      have short : (header.length : Int) < maxsize := allowed
      have bounded : 0 ≤ maxsize := by omega
      refine ⟨by omega, fun _ => bounded, by simp, ?_, .inl bounded⟩
      rw [Fits, if_pos bounded, if_pos bounded]
      omega
    | false =>
      obtain ⟨rfl, small⟩ : maxsize = -1 ∧ header.length < headerLimit := allowed
      refine ⟨by decide, by simp, fun _ => ⟨513, rfl⟩, ⟨by decide, small⟩, .inr ⟨⟨0, rfl⟩, ?_⟩⟩
      intro times _
      have positive := Nat.pow_pos (n := times) (by decide : 0 < 2)
      change 512 ≤ 512 * 2 ^ times
      omega
  have room : ([] : Bytes).length < (if 0 ≤ maxsize then maxsize else 512).toNat := by
    have filled := fits
    rw [Fits] at filled
    rw [List.length_nil]
    split at filled <;> omega
  obtain ⟨seen, last, next, there, found, looped, left⟩ :=
    readHdrLoop_stops ends _ [] conn fits grown arrives positive room
  obtain ⟨rfl, remains⟩ := result seen last next found left
  rw [List.take_left] at looped
  exact ⟨next, readHttpHdr_loop whole.clean whole.present low bounded allocated looped, remains⟩

end

end Ptp.Http
