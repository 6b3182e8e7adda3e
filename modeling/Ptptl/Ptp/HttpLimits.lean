import Ptptl.Ptp.HttpMessage

set_option autoImplicit false

/-! # `ReadHttp` into a buffer of its caller -/

namespace Ptp.Http

open CInt Chunked Search

/-- `ReadHttp`; `given` tells whether the caller passes a buffer of `maxsize` bytes. What is stored in
that buffer comes with the result. -/
def readHttpInto (ulong : Nat) (conn : Connection) (given : Bool) (maxsize : Int) :
    Option (Option Message × Bytes × Connection) := do
  if maxsize < -1 ∨ (given ∧ maxsize < 0) then return (none, [], conn)
  let (hdr, conn) ← readHttpHdr ulong conn false maxsize
  match hdr with
  | none => return (none, [], conn)
  | some hdr =>
      -- the header is deleted twice
      if 0 ≤ maxsize ∧ maxsize < hdr.contentSize then none
      let total ← if 0 ≤ hdr.contentSize then checked (hdr.contentSize + 1) else some 1024
      let maxsize := if maxsize < 0 ∧ 0 < hdr.contentSize then hdr.contentSize else maxsize
      -- the loop does not turn again when there is a limit, as there is with a buffer
      let stored := if given then gathered Connection.read (total.toNat - 1) conn else []
      let ((data, size), conn) ← readBodyLoop maxsize total.toNat [] conn
      return (some { data := data, status := hdr.status, contentSize := size }, stored, conn)

theorem readHttpInto_null (ulong : Nat) (conn : Connection) (maxsize : Int) :
    (readHttpInto ulong conn false maxsize).map (fun result => (result.1, result.2.2)) =
      readHttp ulong conn maxsize := by
  by_cases low : maxsize < -1
  · simp [readHttpInto, readHttp, low]
  cases header : readHttpHdr ulong conn false maxsize with
  | none => simp [readHttpInto, readHttp, header, low]
  | some outcome =>
    obtain ⟨hdr, middle⟩ := outcome
    cases hdr with
    | none => simp [readHttpInto, readHttp, header, low]
    | some hdr =>
      by_cases large : 0 ≤ maxsize ∧ maxsize < hdr.contentSize
      · simp [readHttpInto, readHttp, header, low, large]
      · by_cases announced : 0 ≤ hdr.contentSize <;>
          simp only [readHttpInto, readHttp, header, low, large, announced, Bool.false_eq_true,
            false_and, or_self, if_false, if_true, Option.pure_def, Option.bind_eq_bind,
            Option.bind_some, Option.map_bind, Function.comp_def, Option.map_some]

def contentRoom (announced : Int) : Nat := if 0 ≤ announced then announced.toNat else 1023

/-- What a caller of `ReadHttp` with a limit relies on. -/
def Respects (ulong : Nat) (given : Bool) (maxsize : Nat) (conn : Connection) : Prop :=
  ∃ message stored next, readHttpInto ulong conn given maxsize = some (message, stored, next) ∧
    stored.length ≤ maxsize ∧
    (∀ middle, readHttpHdr ulong conn false maxsize = some (none, middle) → message = none) ∧
    (∀ hdr middle, readHttpHdr ulong conn false maxsize = some (some hdr, middle) →
      maxsize < hdr.contentSize ∨ (middle.readAll (contentRoom hdr.contentSize)).1 = none →
      message = none) ∧
    ∀ found ∈ message, 0 ≤ found.contentSize

/-- How many bytes of a stream can become the header in a buffer of `maxsize` bytes. -/
def HeaderCut (maxsize : Nat) (events : List (Option Byte)) (size : Nat) : Prop :=
  0 < size ∧ size < maxsize ∧ size ≤ (front events).length ∧
    (size ∈ crlfEnd (front events) ∨
      (size ∈ lfEnd (front events) ∧ ∀ later ∈ crlfEnd (front events), size < later) ∨
      headerEnd ((front events).take (maxsize - 1)) = none ∧
        (size + 1 = maxsize ∨ events = ((front events).take size).map some))

/-- The content behind a header: not more than the limit, and without a failure. -/
def Contained (given : Bool) (maxsize : Nat) (announced : Int) (rest : List (Option Byte)) : Prop :=
  announced ≤ maxsize ∧ Delivered (contentRoom announced) rest ∧
    (given → ((front rest).take (contentRoom announced)).length ≤ maxsize)

theorem readHttpHdr_limited (ulong : Nat) {maxsize : Nat} (room : (maxsize : Int) < intMax)
    (conn : Connection) :
    readHttpHdr ulong conn false maxsize =
      (readHdrLoop maxsize maxsize [] conn).map
        fun result => (result.1.bind (headerOf ulong), result.2) := by
  have allocated : checked ((if 0 ≤ (maxsize : Int) then (maxsize : Int) else 512) + 1) =
      some ((maxsize : Int) + 1) := by
    rw [if_pos (Int.natCast_nonneg maxsize)]
    exact checked_of_le (by omega) (by omega)
  have own := readHttpHdr_own ulong conn (by omega) allocated
  rwa [if_pos (Int.natCast_nonneg maxsize), Int.toNat_natCast] at own

theorem Found.cut {maxsize : Nat} {events : List (Option Byte)} {text : Bytes} {next : Connection}
    (found : Found maxsize maxsize events text next) (present : text ≠ []) :
    HeaderCut maxsize events text.length ∧ text = (front events).take text.length ∧
      next.events = events.drop text.length := by
  have start : front events = text ++ front next.events := by rw [found.whole, front_append]
  have inside : text.length ≤ (front events).length := by
    rw [start, List.length_append]
    omega
  have taken : (front events).take text.length = text := by rw [start, List.take_left]
  refine ⟨⟨List.length_pos_of_ne_nil present, found.room, inside, ?_⟩, taken.symm, ?_⟩
  · rcases found.stops with ⟨seen, -, blank⟩ | ⟨absent, ⟨-, full⟩ | ended⟩
    · have reached := (headerEnd_take blank).1
      rw [List.length_take] at reached
      refine (headerEnd_cases blank).imp_right fun other => .inl ⟨other.1, fun later blank' => ?_⟩
      have after := other.2 later blank'
      omega
    · rw [← full, Nat.add_sub_cancel, taken]
      exact .inr (.inr ⟨absent, .inl rfl⟩)
    · have whole := found.whole
      rw [ended, List.append_nil] at whole
      have all : front events = text := by rw [whole, front_map]
      have room := found.room
      rw [all, List.take_of_length_le (by omega), List.take_length]
      exact .inr (.inr ⟨absent, .inr whole⟩)
  · rw [found.whole, List.drop_left' (List.length_map _)]

/-! ## A connection for each cut -/

def frontConn (events : List (Option Byte)) (size : Nat) : Connection :=
  queueConn ((front events).take size) (Source.ofEvents (events.drop size))

theorem frontConn_events {events : List (Option Byte)} {size : Nat}
    (inside : size ≤ (front events).length) : (frontConn events size).events = events := by
  obtain ⟨rest, whole, -⟩ := front_split events
  have start : ((front events).take size).map some = events.take size := by
    conv => rhs; rw [whole]
    rw [List.take_append_of_le_length (by rwa [List.length_map]), List.map_take]
  rw [frontConn, queueConn_events, Source.ofEvents_events, start, List.take_append_drop]

theorem queueConn_read {text : Bytes} (present : text ≠ []) (socket : Source Byte) (size : Nat)
    (enough : text.length ≤ size) :
    (queueConn text socket).read size = (some text, queueConn [] socket) := by
  have positive := List.length_pos_of_ne_nil present
  have nonzero : ¬ size = 0 := by omega
  have all := List.take_of_length_le enough
  have none := List.drop_of_length_le enough
  cases text with
  | nil => exact absurd rfl present
  | cons head tail => simp [Connection.read, queueConn, Connection.get, nonzero, all, none]

section

variable {maxsize size : Nat} {events : List (Option Byte)}

theorem HeaderCut.cases (cut : HeaderCut maxsize events size) :
    headerEnd ((front events).take size) = some size ∨
      headerEnd ((front events).take size) = none ∧
        (size + 1 = maxsize ∨ events.drop size = []) := by
  obtain ⟨-, room, -, blank | ⟨blank, before⟩ | ⟨absent, ended⟩⟩ := cut
  · rw [headerEnd_take_eq, blank, Option.filter_some, if_pos (by simp)]
    exact .inl rfl
  · have unseen : (crlfEnd (front events)).filter (· ≤ size) = none := by
      cases other : crlfEnd (front events) with
      | none => rfl
      | some later =>
        have after := before later other
        rw [Option.filter_some, if_neg (by simpa using after)]
    rw [headerEnd_take_eq, blank, unseen, Option.filter_some, if_pos (by simp)]
    exact .inl rfl
  · refine .inr ⟨?_, ended.imp_right fun whole => ?_⟩
    · cases seen : headerEnd ((front events).take size) with
      | none => rfl
      | some stop =>
        have later := headerEnd_mono (Nat.le_sub_one_of_lt room) (by rw [seen]; rfl)
        rw [absent] at later
        cases later
    · rw [whole]
      apply List.drop_of_length_le
      rw [List.length_map]
      exact List.length_take_le _ _

theorem HeaderCut.read (cut : HeaderCut maxsize events size) :
    ∃ next, readHdrLoop maxsize maxsize [] (frontConn events size) =
        some (some ((front events).take size), next) ∧ next.events = events.drop size := by
  obtain ⟨positive, room, inside, -⟩ := id cut
  have length : ((front events).take size).length = size := List.length_take_of_le inside
  have present : (front events).take size ≠ [] := List.ne_nil_of_length_pos (by omega)
  have some' : ¬ maxsize - ([] : Bytes).length - 1 = 0 := by
    rw [List.length_nil]
    omega
  have result := queueConn_read present (Source.ofEvents (events.drop size))
    (maxsize - ([] : Bytes).length - 1) (by rw [length, List.length_nil]; omega)
  have rest : (queueConn [] (Source.ofEvents (events.drop size))).events = events.drop size := by
    rw [queueConn_events, Source.ofEvents_events]
    rfl
  rw [frontConn, readHdrLoop_read some' result, List.nil_append]
  rcases cut.cases with blank | ⟨absent, ended⟩
  · refine ⟨(queueConn [] (Source.ofEvents (events.drop size))).putBack [], ?_, ?_⟩
    · simp only [ungetData, blank, Option.map_some, List.take_take, Nat.min_self,
        List.drop_of_length_le (Nat.le_of_eq length)]
    · rw [Connection.putBack_events, rest]
      rfl
  · simp only [ungetData, absent, Option.map_none, if_neg present]
    by_cases full : size + 1 = maxsize
    · refine ⟨_, ?_, rest⟩
      rw [readHdrLoop, if_pos (by omega), if_pos (Int.natCast_nonneg maxsize)]
    · have nothing := ended.resolve_left full
      have closed : (queueConn [] (Source.ofEvents (events.drop size))).read
          (maxsize - ((front events).take size).length - 1) =
            (some [], queueConn [] (Source.ofEvents (events.drop size))) := by
        have nonzero : ¬ maxsize - ((front events).take size).length - 1 = 0 := by omega
        rw [nothing, Connection.read, if_neg nonzero]
        simp [Connection.get, queueConn, Source.ofEvents, Source.read]
      refine ⟨_, ?_, rest⟩
      rw [readHdrLoop_read (by omega) closed, List.append_nil]
      simp only [ungetData, absent, Option.map_none, if_true]

end

/-! ## The content -/

section

variable {ulong : Nat} {given : Bool} {maxsize : Nat} {conn middle : Connection}

theorem readHttpHdr_room {hdr : Option Header}
    (header : readHttpHdr ulong conn false maxsize = some (hdr, middle)) :
    (maxsize : Int) < intMax := by
  by_contra large
  have bounded : (0 : Int) ≤ maxsize := Int.natCast_nonneg maxsize
  have allowed : ¬ (maxsize : Int) < -1 := by omega
  have overflow : checked ((maxsize : Int) + 1) = none := checked_eq_none.2 (by omega)
  simp [readHttpHdr, allowed, overflow] at header

theorem readHttpInto_header (given : Bool) {hdr : Header}
    (header : readHttpHdr ulong conn false maxsize = some (some hdr, middle)) :
    readHttpInto ulong conn given maxsize =
      if maxsize < hdr.contentSize then none
      else (readBodyLoop maxsize (contentRoom hdr.contentSize + 1) [] middle).map fun result =>
        (some { data := result.1.1, status := hdr.status, contentSize := result.1.2 },
          if given then gathered Connection.read (contentRoom hdr.contentSize) middle else [],
          result.2) := by
  have room := readHttpHdr_room header
  have bounded : (0 : Int) ≤ maxsize := Int.natCast_nonneg maxsize
  have allowed : ¬ ((maxsize : Int) < -1 ∨ given = true ∧ (maxsize : Int) < 0) := by omega
  by_cases large : (maxsize : Int) < hdr.contentSize
  · simp [readHttpInto, header, allowed, large]
  · rw [if_neg large]
    have limited : ¬ ((maxsize : Int) < 0 ∧ 0 < hdr.contentSize) := by omega
    have above : ¬ (0 ≤ (maxsize : Int) ∧ (maxsize : Int) < hdr.contentSize) := by omega
    simp only [readHttpInto, if_neg allowed, header, if_neg above, if_neg limited,
      Option.bind_eq_bind, Option.bind_some, Option.pure_def, Option.map_eq_bind]
    by_cases announced : 0 ≤ hdr.contentSize
    · have allocated : checked (hdr.contentSize + 1) = some (hdr.contentSize + 1) :=
        checked_of_le (by omega) (by omega)
      have total : (hdr.contentSize + 1).toNat = contentRoom hdr.contentSize + 1 := by
        rw [contentRoom, if_pos announced]
        omega
      rw [if_pos announced, allocated, Option.bind_some, total]
      rfl
    · rw [if_neg announced, contentRoom, if_neg announced]
      rfl

theorem readHttpInto_stored {message : Message} {stored : Bytes} {next : Connection}
    (result : readHttpInto ulong conn true maxsize = some (some message, stored, next))
    (received : 0 ≤ message.contentSize) : message.data = stored := by
  have bounded : (0 : Int) ≤ maxsize := Int.natCast_nonneg maxsize
  have allowed : ¬ ((maxsize : Int) < -1 ∨ (maxsize : Int) < 0) := by omega
  cases header : readHttpHdr ulong conn false maxsize with
  | none => simp [readHttpInto, allowed, header] at result
  | some outcome =>
    obtain ⟨hdr, middle⟩ := outcome
    cases hdr with
    | none => simp [readHttpInto, allowed, header] at result
    | some hdr =>
      rw [readHttpInto_header true header] at result
      split at result
      next => cases result
      next =>
        obtain ⟨⟨⟨data, size⟩, last⟩, looped, same⟩ := Option.map_eq_some_iff.1 result
        cases same
        change 0 ≤ size at received
        rw [readBodyLoop] at looped
        cases read : middle.readAll (contentRoom hdr.contentSize) with
        | mk content rest =>
          cases content with
          | none =>
            simp [read] at looped
            omega
          | some piece =>
            simp [read, bounded] at looped
            rw [← looped.1.1]
            exact (gather_gathered read).symm

theorem Respects.content {hdr : Header}
    (header : readHttpHdr ulong conn false maxsize = some (some hdr, middle))
    (respects : Respects ulong given maxsize conn) :
    Contained given maxsize hdr.contentSize middle.events := by
  obtain ⟨message, stored, next, result, small, -, content, -⟩ := respects
  rw [readHttpInto_header given header] at result
  by_cases large : (maxsize : Int) < hdr.contentSize
  · rw [if_pos large] at result
    cases result
  rw [if_neg large] at result
  obtain ⟨outcome, -, same⟩ := Option.map_eq_some_iff.1 result
  rw [Prod.mk.injEq, Prod.mk.injEq] at same
  refine ⟨Int.not_lt.1 large, ?_, fun own => ?_⟩
  · by_contra failing
    obtain ⟨last, failed⟩ :=
      Connection.follows.gather_none (contentRoom hdr.contentSize) middle failing
    have absent := content hdr middle header (.inr (congrArg Prod.fst failed))
    rw [absent] at same
    cases same.1
  · rwa [← same.2.1, if_pos own, Connection.follows.gathered_eq] at small

theorem Contained.respects {hdr : Header}
    (header : readHttpHdr ulong conn false maxsize = some (some hdr, middle))
    (contained : Contained given maxsize hdr.contentSize middle.events) :
    Respects ulong given maxsize conn := by
  obtain ⟨low, delivered, small⟩ := contained
  have result := readHttpInto_header given header
  obtain ⟨next, looped, -⟩ := readBodyLoop_delivered (Int.natCast_nonneg maxsize)
    (contentRoom hdr.contentSize) middle delivered
  obtain ⟨last, gathered, -⟩ :=
    Connection.follows.gather_some (contentRoom hdr.contentSize) middle delivered
  rw [if_neg (Int.not_lt.2 low), looped] at result
  refine ⟨_, _, next, result, ?_, ?_, ?_, ?_⟩
  · split
    next own =>
      rw [Connection.follows.gathered_eq]
      exact small own
    next => exact Nat.zero_le _
  · intro other again
    rw [header] at again
    cases again
  · intro other last' again failed
    rw [header, Option.some.injEq, Prod.mk.injEq, Option.some.injEq] at again
    obtain ⟨rfl, rfl⟩ := again
    rcases failed with large | failed
    · omega
    · rw [Connection.readAll, gathered] at failed
      cases failed
  · intro found same
    obtain rfl := Option.some.inj same
    exact Int.natCast_nonneg _

theorem Respects.room (respects : Respects ulong given maxsize conn) :
    (maxsize : Int) < intMax := by
  obtain ⟨message, stored, next, result, -⟩ := respects
  have bounded : (0 : Int) ≤ maxsize := Int.natCast_nonneg maxsize
  have allowed : ¬ ((maxsize : Int) < -1 ∨ given = true ∧ (maxsize : Int) < 0) := by omega
  cases header : readHttpHdr ulong conn false maxsize with
  | none => simp [readHttpInto, allowed, header] at result
  | some outcome => exact readHttpHdr_room header

theorem respects_none (header : readHttpHdr ulong conn false maxsize = some (none, middle)) :
    Respects ulong given maxsize conn := by
  have bounded : (0 : Int) ≤ maxsize := Int.natCast_nonneg maxsize
  have allowed : ¬ ((maxsize : Int) < -1 ∨ given = true ∧ (maxsize : Int) < 0) := by omega
  refine ⟨none, [], middle, ?_, Nat.zero_le _, ?_, ?_, ?_⟩
  · simp only [readHttpInto, if_neg allowed, header]
    rfl
  · intros
    rfl
  · intros
    rfl
  · intro found same
    cases same

end

section

variable {ulong : Nat} {given : Bool} {maxsize : Nat} {events : List (Option Byte)}

theorem headerOf_some (ulong : Nat) {text : Bytes} (present : text ≠ []) :
    ∃ hdr, headerOf ulong text = some hdr ∧ hdr.contentSize = contentSize ulong (cString text) := by
  rw [headerOf, if_neg present]
  exact ⟨_, rfl, rfl⟩

theorem Respects.contained {size : Nat} (cut : HeaderCut maxsize events size)
    (respects : ∀ conn : Connection, conn.events = events → Respects ulong given maxsize conn) :
    Contained given maxsize (contentSize ulong (cString ((front events).take size)))
      (events.drop size) := by
  obtain ⟨positive, -, inside, -⟩ := id cut
  have respected := respects (frontConn events size) (frontConn_events inside)
  obtain ⟨next, looped, rest⟩ := cut.read
  have present : (front events).take size ≠ [] :=
    List.ne_nil_of_length_pos (by rw [List.length_take_of_le inside]; exact positive)
  obtain ⟨hdr, header, announced⟩ := headerOf_some ulong present
  have result := readHttpHdr_limited ulong respected.room (frontConn events size)
  rw [looped] at result
  simp only [Option.map_some, Option.bind_some, header] at result
  rw [← announced, ← rest]
  exact respected.content result

theorem HeaderCut.respects {conn : Connection} (room : (maxsize : Int) < intMax)
    (contained : ∀ size, HeaderCut maxsize conn.events size →
      Contained given maxsize (contentSize ulong (cString ((front conn.events).take size)))
        (conn.events.drop size)) : Respects ulong given maxsize conn := by
  obtain ⟨found, next, looped⟩ := readHdrLoop_bounded (Int.natCast_nonneg maxsize) maxsize [] conn
  have result := readHttpHdr_limited ulong room conn
  rw [looped] at result
  cases found with
  | none => exact respects_none result
  | some text =>
    by_cases present : text = []
    · subst present
      exact respects_none result
    have sized : Sized maxsize maxsize maxsize := by
      rw [Sized, if_pos (Int.natCast_nonneg maxsize)]
    have taken : Found maxsize maxsize conn.events text next :=
      readHdrLoop_found maxsize [] conn sized rfl rfl (.inl rfl) present looped
    obtain ⟨cut, start, rest⟩ := taken.cut present
    obtain ⟨hdr, header, announced⟩ := headerOf_some ulong present
    simp only [Option.map_some, Option.bind_some, header] at result
    have content := contained text.length cut
    rw [← start, ← announced, ← rest] at content
    exact content.respects result

end

theorem respects_iff (ulong : Nat) (given : Bool) (maxsize : Nat) (events : List (Option Byte)) :
    (∀ conn : Connection, conn.events = events → Respects ulong given maxsize conn) ↔
      (maxsize : Int) < intMax ∧ ∀ size, HeaderCut maxsize events size →
        Contained given maxsize (contentSize ulong (cString ((front events).take size)))
          (events.drop size) := by
  constructor
  next =>
    intro respects
    have same : (queueConn [] (Source.ofEvents events)).events = events := by
      rw [queueConn_events, Source.ofEvents_events]
      rfl
    exact ⟨(respects _ same).room, fun size cut => Respects.contained cut respects⟩
  next =>
    rintro ⟨room, contained⟩ conn rfl
    exact HeaderCut.respects room contained

-- a buffer of 16 bytes, for a content without an announced size
theorem respects_lost : ¬ ∀ (ulong : Nat) (given : Bool) (maxsize : Nat) (conn : Connection),
    Respects ulong given maxsize conn := by
  intro always
  have cut : HeaderCut 16
      ((ascii "HTTP 200" ++ crlf ++ crlf ++ ascii "12345678901234567").map some) 12 :=
    ⟨by decide, by decide, by decide +kernel, .inl (by decide +kernel)⟩
  have content := Respects.contained cut fun conn _ => always 4294967296 true 16 conn
  exact absurd (content.2.2 rfl) (by decide +kernel)

end Ptp.Http
