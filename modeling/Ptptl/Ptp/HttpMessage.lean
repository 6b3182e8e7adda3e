import Ptptl.Ptp.HttpBoundary
import Ptptl.Ptp.HttpRoundTrip

set_option autoImplicit false

/-! # One message of a stream -/

namespace Ptp.Http

open CInt Chunked Search

/-- `ReadHttp` takes a header and the bytes that it announces. What follows may be a failure: a call
that reads on would meet it. -/
def OneMessage (ulong : Nat) (header body : Bytes) : Prop :=
  ∀ (conn : Connection) (rest : List (Option Byte)),
    conn.events = (header ++ body).map some ++ rest →
    ∃ message next, readHttp ulong conn (-1) = some (some message, next) ∧
      message.data = body ∧ message.contentSize = body.length ∧ next.events = rest

theorem Ends.unique {text : Bytes} {stop other : Nat} (ends : Ends text stop)
    (ends' : Ends text other) : stop = other := by
  rcases Nat.lt_trichotomy stop other with before | same | after
  · cases (ends'.first stop before).symm.trans ends.here
  · exact same
  · cases (ends.first other after).symm.trans ends'.here

theorem Ends.steady {text : Bytes} {stop : Nat} (ends : Ends text stop)
    (blank : stop ∈ crlfEnd text) : Steady text := by
  intro other blank' later blank'' before
  obtain rfl : stop = later := Option.some.inj (blank.symm.trans blank'')
  have same := (ends_lf blank' blank before).unique ends
  omega

def queueConn (text : Bytes) (socket : Source Byte) : Connection where
  unget := text
  socket := socket
  sent := ⟨[], []⟩

theorem queueConn_events (text : Bytes) (socket : Source Byte) :
    (queueConn text socket).events = text.map some ++ socket.events :=
  Source.prepend_events text socket

theorem queueConn_available (text : Bytes) :
    (queueConn text []).arrivals.available = text.length := by
  cases text <;> rfl

theorem readBodyLoop_grow {maxsize : Int} {total : Nat} {data piece : Bytes}
    {conn next : Connection} {grown : Int}
    (result : conn.readAll (total - data.length - 1) = (some piece, next))
    (full : ¬ (piece.length < total - data.length - 1 ∨ 0 ≤ maxsize)) (nonzero : ¬ total = 0)
    (doubled : checked (total * 2 : Nat) = some grown) :
    readBodyLoop maxsize total data conn =
      readBodyLoop maxsize (total * 2) (data ++ piece) next := by
  rw [readBodyLoop, result]
  simp only [if_neg full, dif_neg nonzero]
  split
  next overflow =>
    rw [doubled] at overflow
    cases overflow
  next => rfl

/-- With no byte announced, the loop reads on until the end of the stream. -/
theorem readBodyLoop_fails (conn : Connection) (failing : ¬ Delivered 1 conn.events) :
    ∃ next, readBodyLoop (-1) 1 [] conn = some (([], -1), next) := by
  obtain ⟨next, failed⟩ := Connection.follows.gather_none 1 conn failing
  change conn.readAll 1 = _ at failed
  have start : conn.readAll (1 - ([] : Bytes).length - 1) = (some [], conn) := by
    rw [Connection.readAll, gather]
    rfl
  have doubled : checked (1 * 2 : Nat) = some 2 := rfl
  refine ⟨next, ?_⟩
  rw [readBodyLoop_grow start (by decide) (by decide) doubled, readBodyLoop]
  simp [failed]

section

variable {ulong : Nat} {header body : Bytes}

theorem Ends.clean (ends : Ends header header.length) : (0 : Byte) ∉ header := by
  have here := ends.here
  rw [List.take_length, headerEnd_eq, crlfEnd, lfEnd] at here
  have whole : header.length ≤ (cString header).length := by
    rcases Option.or_eq_some_iff.1 here with blank | ⟨-, blank⟩
    · exact strstr_end_le blank
    · exact strstr_end_le blank
  have front := cString_front header
  rw [← front.eq_of_length_le whole]
  exact cString_clean header

theorem Ends.append (ends : Ends header header.length) (more : Bytes) :
    Ends (header ++ more) header.length where
  here := by
    have here := ends.here
    rw [List.take_length] at here
    rw [List.take_left, here]
  first size early := by
    rw [List.take_append_of_le_length (Nat.le_of_lt early), ends.first size early]

theorem Ends.headerOf (ends : Ends header header.length) (ulong : Nat) :
    headerOf ulong header =
      some { text := header, status := status ulong header,
             contentSize := contentSize ulong header } := by
  have present : header ≠ [] := by
    rintro rfl
    cases ends.here
  rw [Http.headerOf, if_neg present, cString_eq ends.clean]

theorem Steady.oneMessage (ends : Ends header header.length)
    (sized : contentSize ulong header = body.length) (small : body.length < 2147483647)
    (positive : 0 < body.length) (limited : header.length < headerLimit)
    (steady : ∀ more, Steady (header ++ body ++ more)) : OneMessage ulong header body := by
  intro conn rest same
  have arrives : front conn.events = header ++ body ++ front rest := by rw [same, front_append]
  have ends' : Ends (header ++ body ++ front rest) header.length := by
    rw [List.append_assoc]
    exact ends.append _
  obtain ⟨seen, last, middle, there, found, result, left⟩ :=
    readHttpHdr_stops ulong ends' limited arrives
  obtain rfl : header.length = last :=
    Option.some.inj (((steady _).stops ends' there).symm.trans found)
  rw [List.append_assoc, List.take_left, ends.headerOf] at result
  have events : middle.events = body.map some ++ rest := by
    rw [left, same, List.map_append, List.append_assoc]
    exact List.drop_left' (List.length_map _)
  obtain ⟨next, message, after⟩ := readHttp_delivered result sized positive
    (by unfold intMax; omega) (.inl (by rw [events, front_append, List.length_append]; omega))
  rw [events, front_append, List.take_left] at message
  rw [events, List.drop_left' (List.length_map _)] at after
  exact ⟨_, next, message, rfl, rfl, after⟩

theorem OneMessage.limited (ends : Ends header header.length)
    (message : OneMessage ulong header body) : header.length < headerLimit := by
  by_contra large
  have events : (queueConn (header ++ body) []).events = (header ++ body).map some ++ [] :=
    queueConn_events _ _
  obtain ⟨message, next, found, -⟩ := message _ [] events
  obtain ⟨hdr, middle, -, -, result, -⟩ := readHttp_parts found
  have absent (size : Nat) (below : size < headerLimit) :
      headerEnd ((header ++ body).take size) = none :=
    (ends.append body).first size (Nat.lt_of_lt_of_le below (Nat.le_of_not_lt large))
  have long : headerLimit ≤ (header ++ body).length + 1 := by
    rw [List.length_append]
    omega
  have overflows := readHdrLoop_overflows absent long 512 [] (queueConn (header ++ body) [])
    ⟨0, rfl⟩ (by decide) (by rw [events, front_append]; simp [front]) (by decide)
  rw [readHttpHdr_unlimited, overflows] at result
  cases result

theorem OneMessage.positive (ends : Ends header header.length)
    (sized : contentSize ulong header = body.length)
    (message : OneMessage ulong header body) : 0 < body.length := by
  by_contra empty
  obtain rfl : body = [] := List.eq_nil_of_length_eq_zero (Nat.eq_zero_of_not_pos empty)
  -- a failure behind the header
  have events : (queueConn header [.failure]).events = header.map some ++ [none] :=
    queueConn_events _ _
  have arrives : front (queueConn header [.failure]).events = header := by
    rw [events, front_append]
    exact List.append_nil header
  obtain ⟨seen, last, middle, there, found, result, left⟩ :=
    readHttpHdr_stops ulong ends (message.limited ends) arrives
  obtain ⟨other, again, reached, inside⟩ := ends.seen there.reached
  obtain rfl : last = other := Option.some.inj (found.symm.trans again)
  obtain rfl : last = header.length := Nat.le_antisymm (Nat.le_trans inside there.inside) reached
  rw [List.take_length, ends.headerOf] at result
  rw [events, List.drop_left' (List.length_map _)] at left
  obtain ⟨message, next, found, -, size, -⟩ := message (queueConn header [.failure]) [none]
    (by rw [events, List.append_nil])
  obtain ⟨last, looped⟩ := readBodyLoop_fails middle (by rw [left]; simp [Delivered, front])
  have allocated : checked 1 = some 1 := rfl
  simp [readHttp_header result, sized, allocated, looped] at found
  rw [← found.1] at size
  cases size

theorem OneMessage.steady (ends : Ends header header.length)
    (message : OneMessage ulong header body) (more : Bytes) : Steady (header ++ body ++ more) := by
  intro stop blank later blank' before
  by_contra apart
  have ends' : Ends (header ++ body ++ more) header.length := by
    rw [List.append_assoc]
    exact ends.append _
  obtain rfl : stop = header.length := (ends_lf blank blank' before).unique ends'
  have events : (queueConn (header ++ body ++ more) []).events =
      (header ++ body).map some ++ more.map some := by
    rw [queueConn_events, ← List.map_append]
    exact List.append_nil _
  have arrives : front (queueConn (header ++ body ++ more) []).events = header ++ body ++ more := by
    rw [events, ← List.map_append, front_map]
  obtain ⟨seen, last, middle, there, found, result, left⟩ :=
    readHttpHdr_stops ulong ends' (message.limited ends) arrives
  rw [queueConn_available] at there
  obtain rfl : later = last := Option.some.inj ((there.late blank' apart).symm.trans found)
  rw [events, ← List.map_append, ← List.map_drop] at left
  obtain ⟨clean, middle'⟩ := Connection.clean_of_events left
  -- the body and what follows it, behind the later end
  obtain ⟨message, next, whole, data, -, after⟩ := message _ _ events
  obtain ⟨hdr, other, maxsize, total, again, looped⟩ := readHttp_parts whole
  rw [result, Option.some.injEq, Prod.mk.injEq] at again
  obtain ⟨-, rfl⟩ := again
  have lengths := congrArg List.length (readBodyLoop_sound maxsize total [] middle clean looped)
  rw [data, middle', (Connection.clean_of_events after).2, List.nil_append, List.length_drop,
    List.length_append, List.length_append, List.length_append] at lengths
  have inside := crlfEnd_le blank'
  rw [List.length_append, List.length_append] at inside
  omega

theorem oneMessage_iff (ends : Ends header header.length)
    (sized : contentSize ulong header = body.length) (small : body.length < 2147483647) :
    OneMessage ulong header body ↔
      0 < body.length ∧ header.length < headerLimit ∧ ∀ more, Steady (header ++ body ++ more) := by
  constructor
  next =>
    intro message
    exact ⟨message.positive ends sized, message.limited ends, message.steady ends⟩
  next =>
    rintro ⟨positive, limited, steady⟩
    exact Steady.oneMessage ends sized small positive limited steady

end

def okLines (size : Nat) : List Bytes := [ascii "HTTP 200", sizeLine size]

def okHeader (size : Nat) : Bytes := linesText (okLines size) ++ crlf

theorem okHeader_whole (size : Nat) : Whole (okHeader size) := by
  apply PlainLines.whole
  next =>
    intro line member
    rcases List.mem_cons.1 member with rfl | member
    · exact ⟨by decide, by decide⟩
    · obtain rfl := List.mem_singleton.1 member
      exact sizeLine_plain size
  next => exact List.cons_ne_nil _ _

theorem okHeader_ends (size : Nat) : Ends (okHeader size) (okHeader size).length := by
  simpa using (okHeader_whole size).isEnd []

theorem oneMessage_iff_byte : OneMessage 4294967296 (okHeader 1) [120] := by
  refine (oneMessage_iff (okHeader_ends 1) (by decide +kernel) (by decide)).2
    ⟨by decide, by decide, fun more => ?_⟩
  rw [List.append_assoc]
  have whole := okHeader_whole 1
  exact (whole.isEnd _).steady (whole.crlfEnd_append _)

-- no byte is announced, and the connection stays open
theorem oneMessage_empty :
    ¬ ∀ (ulong : Nat) (header body : Bytes), Ends header header.length →
      contentSize ulong header = body.length → body.length < 2147483647 →
      OneMessage ulong header body := by
  intro always
  have sized : contentSize 4294967296 (okHeader 0) = ([] : Bytes).length := by decide +kernel
  have message := always 4294967296 (okHeader 0) [] (okHeader_ends 0) sized (by decide)
  exact absurd (message.positive (okHeader_ends 0) sized) (by decide)

end Ptp.Http
