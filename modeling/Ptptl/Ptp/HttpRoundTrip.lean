import Ptptl.Ptp.HttpStops

set_option autoImplicit false

/-!
# HTTP messages over a byte stream

`ReadHttp` gives back what `WriteHttp` sent, however the stream is cut into reads.
-/

namespace Ptp.Http

open CInt Chunked Search

theorem readHttpHdr_lines (ulong : Nat) {lines : List Bytes} (plain : PlainLines lines)
    (some' : lines ≠ []) {given : Bool} {maxsize : Int}
    (allowed : Allowed given maxsize (linesText lines ++ crlf).length) (conn : Connection)
    (after : Bytes) (same : conn.remaining = linesText lines ++ crlf ++ after)
    (clean : conn.socket.Clean) :
    ∃ next, readHttpHdr ulong conn given maxsize =
        some (some { text := linesText lines ++ crlf,
                     status := status ulong (linesText lines ++ crlf),
                     contentSize := contentSize ulong (linesText lines ++ crlf) }, next) ∧
      next.remaining = after ∧ next.socket.Clean := by
  have arrives : conn.events = (linesText lines ++ crlf).map some ++ after.map some := by
    rw [Connection.events_clean clean, same, List.map_append]
  obtain ⟨next, result, left⟩ := readHttpHdr_whole ulong (plain.whole some') allowed arrives
  obtain ⟨kept, rest⟩ := Connection.clean_of_events left
  exact ⟨next, result, rest, kept⟩

theorem readHttpHdr_correct (ulong : Nat) {lines : List Bytes} (plain : PlainLines lines)
    (some' : lines ≠ []) (small : (linesText lines ++ crlf).length < headerLimit)
    (conn : Connection) (after : Bytes) (same : conn.remaining = linesText lines ++ crlf ++ after)
    (clean : conn.socket.Clean) :
    ∃ next, readHttpHdr ulong conn false (-1) =
        some (some { text := linesText lines ++ crlf,
                     status := status ulong (linesText lines ++ crlf),
                     contentSize := contentSize ulong (linesText lines ++ crlf) }, next) ∧
      next.remaining = after ∧ next.socket.Clean :=
  readHttpHdr_lines ulong plain some' (.unlimited small) conn after same clean

theorem readHttpHdr_given (ulong : Nat) {lines : List Bytes} (plain : PlainLines lines)
    (some' : lines ≠ []) {maxsize : Nat} (short : (linesText lines ++ crlf).length < maxsize)
    (conn : Connection) (after : Bytes) (same : conn.remaining = linesText lines ++ crlf ++ after)
    (clean : conn.socket.Clean) :
    ∃ next, readHttpHdr ulong conn true maxsize =
        some (some { text := linesText lines ++ crlf,
                     status := status ulong (linesText lines ++ crlf),
                     contentSize := contentSize ulong (linesText lines ++ crlf) }, next) ∧
      next.remaining = after ∧ next.socket.Clean :=
  readHttpHdr_lines ulong plain some' (.limited (Int.ofNat_lt.2 short)) conn after same clean

theorem readBodyLoop_delivered {maxsize : Int} (bounded : 0 ≤ maxsize) (size : Nat)
    (conn : Connection) (delivered : Delivered size conn.events) :
    ∃ next, readBodyLoop maxsize (size + 1) [] conn =
        some (((front conn.events).take size, (((front conn.events).take size).length : Int)),
          next) ∧
      next.events = conn.events.drop size := by
  obtain ⟨next, result, rest⟩ := Connection.follows.gather_some size conn delivered
  change conn.readAll size = _ at result
  refine ⟨next, ?_, rest⟩
  rw [readBodyLoop]
  simp [result, bounded]

theorem readBodyLoop_sound (maxsize : Int) (total : Nat) (data : Bytes) (conn : Connection)
    {body : Bytes} {size : Int} {last : Connection} (clean : conn.socket.Clean)
    (found : readBodyLoop maxsize total data conn = some ((body, size), last)) :
    body ++ last.remaining = data ++ conn.remaining := by
  -- on a clean socket every `ReadAll` takes a prefix of what remains
  have taken {size : Nat} {conn next : Connection} {piece : Bytes} (clean : conn.socket.Clean)
      (result : conn.readAll size = (some piece, next)) :
      piece ++ next.remaining = conn.remaining ∧ next.socket.Clean := by
    obtain ⟨other, delivered, rest, kept⟩ := conn.readAll_correct size clean
    rw [delivered] at result
    cases result
    exact ⟨by rw [rest, List.take_append_drop], kept⟩
  induction total, data, conn using readBodyLoop.induct maxsize with
  | case1 total data conn next failed =>
    obtain ⟨last, delivered, -⟩ := conn.readAll_correct (total - data.length - 1) clean
    rw [delivered] at failed
    cases failed
  | case2 total data conn piece next result ended =>
    rw [readBodyLoop, result] at found
    simp only [if_pos ended, Option.some.injEq, Prod.mk.injEq] at found
    obtain ⟨⟨rfl, -⟩, rfl⟩ := found
    rw [List.append_assoc, (taken clean result).1]
  | case3 data conn piece next result more =>
    rw [readBodyLoop, result] at found
    simp only [if_neg more, dite_true] at found
    cases found
  | case4 total data conn piece next result more nonzero overflow =>
    rw [readBodyLoop, result] at found
    simp only [if_neg more, dif_neg nonzero] at found
    split at found
    next => cases found
    next grown again =>
      rw [overflow] at again
      cases again
  | case5 total data conn piece next result more nonzero grown doubled ih =>
    rw [readBodyLoop, result] at found
    simp only [if_neg more, dif_neg nonzero] at found
    split at found
    next => cases found
    next =>
      rw [ih (taken clean result).2 found, List.append_assoc, (taken clean result).1]

inductive Start where
  | request (proxy : Option (Nat × Nat)) (method url : Option Bytes)
  | response (status : Nat)

namespace Start

def line : Start → Bytes
  | request proxy method url =>
      requestLine proxy (method.getD (ascii "PUT")) (url.getD (ascii "/tunnel"))
  | response status => statusLine status

def write (start : Start) (conn : Connection) (hdr : Option Bytes) (body : Bytes)
    (type : Option Bytes) : Option (Int × Connection) :=
  match start with
  | request proxy method url =>
      writeRequest conn proxy method url hdr (some body) type body.length
  | response status => writeResponse conn status hdr (some body) type body.length

def received : Start → Int
  | request _ _ _ => badRequest
  | response status => status

def Valid : Start → Prop
  | request _ method url =>
      (method.getD (ascii "PUT") = ascii "GET" ∨ method.getD (ascii "PUT") = ascii "PUT") ∧
        Plain (url.getD (ascii "/tunnel"))
  | response status => (status : Int) ≤ intMax

end Start

instance (text : Bytes) : Decidable (Plain text) :=
  List.decidableBAll (fun char => char ≠ 0 ∧ char ≠ 13 ∧ char ≠ 10) text

theorem Plain.append {front back : Bytes} (first : Plain front) (second : Plain back) :
    Plain (front ++ back) := by
  intro char member
  rcases List.mem_append.1 member with member | member
  · exact first char member
  · exact second char member

theorem Plain.decimal (value : Nat) : Plain (decimal value) := by
  intro char member
  have digit := decimal_isdigit value char member
  refine ⟨?_, ?_, ?_⟩ <;>
  · rintro rfl
    exact absurd digit (by decide)

theorem printInt_natCast (value : Nat) : printInt value = decimal value := by
  have nonneg : ¬ (value : Int) < 0 := by omega
  simp [printInt, nonneg]

theorem printInt_injective {value other : Int} (same : printInt value = printInt other) :
    value = other := by
  have unsigned (left right : Nat) : ascii "-" ++ decimal left ≠ decimal right := by
    intro same
    have member : (45 : Byte) ∈ decimal right := by simp [← same, ascii]
    exact absurd (decimal_isdigit right 45 member) (by decide)
  have digits (left right : Nat) (same : decimal left = decimal right) : left = right := by
    rw [← digitsValue_decimal left, same, digitsValue_decimal]
  unfold printInt at same
  split at same <;> split at same
  next =>
    have equal := digits _ _ (List.append_cancel_left same)
    omega
  next => exact absurd same (unsigned _ _)
  next => exact absurd same.symm (unsigned _ _)
  next =>
    have equal := digits _ _ same
    omega

theorem printInt_plain (value : Int) : (13 : Byte) ∉ printInt value := by
  have digits (value : Nat) : (13 : Byte) ∉ decimal value := by
    intro member
    exact absurd (decimal_isdigit value 13 member) (by decide)
  unfold printInt
  split
  next => simpa [ascii] using digits _
  next => exact digits _

theorem headerText_cancel {start hdr type front back : Bytes} {size other : Int} (present : size ≠ 0)
    (present' : other ≠ 0) (same : headerText start hdr type size ++ front =
      headerText start hdr type other ++ back) : size = other ∧ front = back := by
  simp only [headerText, present, present', ne_eq, not_false_eq_true, if_true,
    List.append_assoc, List.append_cancel_left_eq] at same
  have sized (value : Int) (rest : Bytes) :
      (printInt value ++ (crlf ++ rest)).takeWhile (· ≠ 13) = printInt value := by
    rw [List.takeWhile_append_of_pos]
    · simp [crlf]
    · intro char member
      simp only [ne_eq, decide_not, Bool.not_eq_eq_eq_not, Bool.not_true, decide_eq_false_iff_not]
      rintro rfl
      exact printInt_plain value member
  have printed := congrArg (List.takeWhile (· ≠ 13)) same
  rw [sized, sized] at printed
  have equal := printInt_injective printed
  subst equal
  exact ⟨rfl, by simpa only [List.append_cancel_left_eq] using same⟩

theorem printInt_short {value : Int} (low : intMin ≤ value) (high : value ≤ intMax) :
    (printInt value).length ≤ 11 := by
  have digits : (decimal value.natAbs).length ≤ 10 := by
    rw [decimal, List.length_map, Nat.length_toDigits_le_iff (by decide) (by decide)]
    unfold intMin intMax at *
    omega
  have minus : (ascii "-").length = 1 := rfl
  unfold printInt
  split
  next =>
    rw [List.length_append]
    omega
  next => omega

theorem Start.line_plain {start : Start} (valid : start.Valid) :
    Plain start.line ∧ start.line ≠ [] := by
  cases start with
  | response status =>
    have text : Plain (statusText status) := by
      unfold statusText
      repeat' split
      all_goals decide
    refine ⟨?_, by simp [line, statusLine, ascii]⟩
    rw [line, statusLine, printInt_natCast]
    exact ((by decide : Plain (ascii "HTTP ")).append (.decimal status)).append text
  | request proxy method url =>
    obtain ⟨caller, plainUrl⟩ := valid
    have plainMethod : Plain (method.getD (ascii "PUT")) := by
      rcases caller with same | same <;> rw [same] <;> decide
    have dot : Plain (ascii ".") := by decide
    refine ⟨?_, ?_⟩
    · cases proxy with
      | none =>
        exact ((plainMethod.append (by decide)).append plainUrl).append (by decide)
      | some peer =>
        exact ((((((((((((plainMethod.append (by decide)).append (.decimal _)).append dot).append
          (.decimal _)).append dot).append (.decimal _)).append dot).append (.decimal _)).append
          (by decide)).append (.decimal _)).append plainUrl).append (by decide))
    · cases proxy <;> simp [line, requestLine, ascii]

theorem Start.status_correct {ulong : Nat} (wide : 4294967296 ≤ ulong) {start : Start}
    (valid : start.Valid) (rest : Bytes) :
    status ulong (start.line ++ (crlf ++ rest)) = start.received := by
  cases start with
  | response code => exact status_response wide valid rest
  | request proxy method url =>
    cases proxy with
    | none =>
      simp only [line, requestLine, List.append_assoc]
      exact status_request valid.1
    | some peer =>
      simp only [line, requestLine, List.append_assoc]
      exact status_request valid.1

def fieldLines (start : Start) (lines : List Bytes) (type : Bytes) : List Bytes :=
  start.line :: lines ++ [ascii "Content-type: " ++ type]

def sizeLine (size : Nat) : Bytes := lengthField ++ ascii " " ++ decimal size

theorem sizeLine_plain (size : Nat) : Plain (sizeLine size) ∧ sizeLine size ≠ [] := by
  refine ⟨((by decide : Plain lengthField).append (by decide)).append (.decimal _), ?_⟩
  simp [sizeLine, lengthField, ascii]

theorem headerText_lines (start : Start) (lines : List Bytes) (type : Bytes) {size : Nat}
    (present : 0 < size) :
    headerText start.line (linesText lines) type size =
      linesText (fieldLines start lines type ++ [sizeLine size]) ++ crlf := by
  have content : ¬ size = 0 := by omega
  have name : ascii "Content-length: " = lengthField ++ ascii " " := rfl
  simp [headerText, content, printInt_natCast, linesText, fieldLines, sizeLine, name]

structure Fields (start : Start) (lines : List Bytes) (type : Bytes) : Prop where
  valid : start.Valid
  plainLines : PlainLines lines
  noSize : ∀ line ∈ lines, ¬ lengthField <+: line
  plainType : Plain type

theorem Fields.plain {start : Start} {lines : List Bytes} {type : Bytes}
    (fields : Fields start lines type) : PlainLines (fieldLines start lines type) := by
  intro line member
  rcases List.mem_append.1 member with member | member
  · rcases List.mem_cons.1 member with rfl | member
    · exact Start.line_plain fields.valid
    · exact fields.plainLines line member
  · obtain rfl := List.mem_singleton.1 member
    exact ⟨(by decide : Plain (ascii "Content-type: ")).append fields.plainType, by simp [ascii]⟩

theorem Fields.absent {start : Start} {lines : List Bytes} {type : Bytes}
    (fields : Fields start lines type) :
    ∀ line ∈ (fieldLines start lines type).tail, ¬ lengthField <+: line := by
  intro line member
  rcases List.mem_append.1 (show line ∈ lines ++ [ascii "Content-type: " ++ type] from member) with
    member | member
  · exact fields.noSize line member
  · obtain rfl := List.mem_singleton.1 member
    intro same
    -- the names differ in their ninth letter
    have front : lengthField.take 9 <+: ascii "Content-type: " :=
      List.prefix_of_prefix_length_le ((List.take_prefix 9 _).trans same) (List.prefix_append _ _)
        (by decide)
    exact absurd front (by decide)

theorem Fields.whole {start : Start} {lines : List Bytes} {type : Bytes}
    (fields : Fields start lines type) (size : Nat) :
    PlainLines (fieldLines start lines type ++ [sizeLine size]) := by
  intro line member
  rcases List.mem_append.1 member with member | member
  · exact fields.plain line member
  · obtain rfl := List.mem_singleton.1 member
    exact sizeLine_plain size

theorem Fields.received {start : Start} {lines : List Bytes} {type : Bytes}
    (fields : Fields start lines type) {ulong size : Nat} (wide : 4294967296 ≤ ulong)
    (small : (size : Int) ≤ intMax) :
    status ulong (linesText (fieldLines start lines type ++ [sizeLine size]) ++ crlf) =
        start.received ∧
      contentSize ulong (linesText (fieldLines start lines type ++ [sizeLine size]) ++ crlf) =
        size := by
  refine ⟨?_, ?_⟩
  · have first := Start.status_correct wide fields.valid
      (linesText (lines ++ [ascii "Content-type: " ++ type] ++ [sizeLine size]) ++ crlf)
    simpa [linesText, fieldLines] using first
  · have second := contentSize_correct wide small fields.plain
      (by simp [fieldLines]) fields.absent
    simpa [linesText, sizeLine] using second

theorem readHttp_header {ulong : Nat} {conn middle : Connection} {hdr : Header}
    (header : readHttpHdr ulong conn false (-1) = some (some hdr, middle)) :
    readHttp ulong conn (-1) =
      (if 0 ≤ hdr.contentSize then checked (hdr.contentSize + 1) else some 1024).bind fun total =>
        (readBodyLoop (if 0 < hdr.contentSize then hdr.contentSize else -1) total.toNat [] middle).map
          fun result => (some { data := result.1.1, status := hdr.status,
                                contentSize := result.1.2 }, result.2) := by
  have unlimited : ¬ ((0 : Int) ≤ -1 ∧ -1 < hdr.contentSize) := by omega
  simp only [readHttp, header, Int.lt_irrefl, if_false, Option.bind_eq_bind, Option.bind_some,
    if_neg unlimited, Option.pure_def, Option.map_eq_bind, Int.reduceNeg, Int.reduceLT, true_and]
  split <;> rfl

theorem readHttp_delivered {ulong : Nat} {conn middle : Connection} {hdr : Header} {size : Nat}
    (header : readHttpHdr ulong conn false (-1) = some (some hdr, middle))
    (announced : hdr.contentSize = size) (positive : 0 < size) (small : (size + 1 : Int) ≤ intMax)
    (delivered : Delivered size middle.events) :
    ∃ next, readHttp ulong conn (-1) =
        some (some { data := (front middle.events).take size, status := hdr.status,
                     contentSize := (((front middle.events).take size).length : Int) }, next) ∧
      next.events = middle.events.drop size := by
  obtain ⟨next, looped, rest⟩ :=
    readBodyLoop_delivered (Int.natCast_nonneg size) size middle delivered
  have allocated : checked ((size : Int) + 1) = some ((size : Int) + 1) :=
    checked_of_le (by omega) small
  have total : ((size : Int) + 1).toNat = size + 1 := by omega
  refine ⟨next, ?_, rest⟩
  rw [readHttp_header header, announced, if_pos (Int.natCast_nonneg size), allocated,
    Option.bind_some, if_pos (Int.natCast_pos.2 positive), total, looped]
  rfl

theorem readHttp_correct {start : Start} {lines : List Bytes} {type : Bytes}
    (fields : Fields start lines type) {ulong : Nat} (wide : 4294967296 ≤ ulong) {body : Bytes}
    (present : body ≠ []) (small : (body.length + 1 : Int) ≤ intMax)
    (limited : (headerText start.line (linesText lines) type body.length).length < headerLimit)
    (conn : Connection) (after : Bytes) (clean : conn.socket.Clean)
    (same : conn.remaining =
      headerText start.line (linesText lines) type body.length ++ (body ++ after)) :
    ∃ next, readHttp ulong conn (-1) =
        some (some { data := body, status := start.received, contentSize := body.length }, next) ∧
      next.remaining = after ∧ next.socket.Clean := by
  have positive := List.length_pos_of_ne_nil present
  rw [headerText_lines start lines type positive] at limited same
  obtain ⟨middle, header, rest, kept⟩ := readHttpHdr_correct ulong (fields.whole body.length)
    (by simp) limited conn (body ++ after) same clean
  obtain ⟨statusSame, sizeSame⟩ := fields.received wide (by omega : (body.length : Int) ≤ intMax)
  rw [statusSame, sizeSame] at header
  have events : middle.events = (body ++ after).map some := by
    rw [Connection.events_clean kept, rest]
  obtain ⟨next, result, left⟩ := readHttp_delivered header rfl positive small
    (.inr (by rw [events, front_map]))
  rw [events, front_map, List.take_left] at result
  rw [events, ← List.map_drop, List.drop_left] at left
  exact ⟨next, result, (Connection.clean_of_events left).2, (Connection.clean_of_events left).1⟩

def contentType (type : Option Bytes) : Bytes := type.getD (ascii "application/binary")

def Start.text (start : Start) (hdr type : Option Bytes) (body : Bytes) : Bytes :=
  headerText start.line (hdr.getD []) (contentType type) body.length

theorem Start.write_correct (start : Start) (conn : Connection) (willing : conn.sent.Willing)
    (hdr type : Option Bytes) (body : Bytes) :
    ∃ next, start.write conn hdr body type = some (0, next) ∧
      next.sent.accepted = conn.sent.accepted ++
        (start.text hdr type body).take (wrap (start.text hdr type body).length).toNat ++ body := by
  obtain ⟨middle, header, added, kept⟩ := conn.writeAll_correct willing (start.text hdr type body)
    (wrap_le_self (Int.natCast_nonneg _))
  obtain ⟨next, content, rest, -⟩ :=
    middle.writeAll_correct kept body (Int.le_refl (body.length : Int))
  refine ⟨next, ?_, ?_⟩
  · have sized : ¬ (body.length : Int) = -1 := by omega
    cases start with
    | request proxy method url =>
      simp only [text, line, contentType] at header
      simp [write, writeRequest, sendHttp, sized, header, content]
    | response status =>
      simp only [text, line, contentType] at header
      simp [write, writeResponse, sendHttp, sized, header, content]
  · rw [rest, added, Int.toNat_natCast, List.take_length]

/-- What was sent comes back, whatever follows it and however the bytes arrive. -/
def RoundTrip (ulong : Nat) (start : Start) (hdr type : Option Bytes) (body : Bytes) : Prop :=
  ∀ sender : Connection, sender.sent.Willing → sender.sent.accepted = [] →
    ∃ sent, start.write sender hdr body type = some (0, sent) ∧
      ∀ (after : Bytes) (receiver : Connection), receiver.socket.Clean →
        receiver.remaining = sent.sent.accepted ++ after →
        ∃ next, readHttp ulong receiver (-1) =
            some (some { data := body, status := start.received, contentSize := body.length },
              next) ∧
          next.remaining = after ∧ next.socket.Clean

theorem readHttpHdr_sound {ulong : Nat} {conn next : Connection} {hdr : Header}
    (clean : conn.socket.Clean)
    (found : readHttpHdr ulong conn false (-1) = some (some hdr, next)) :
    ∃ text, text ++ next.remaining = conn.remaining ∧ next.socket.Clean ∧
      text.length < headerLimit ∧
      (next.remaining = [] ∨ headerEnd text = some text.length) := by
  rw [readHttpHdr_unlimited] at found
  obtain ⟨⟨buffer, last⟩, looped, same⟩ := Option.map_eq_some_iff.1 found
  rw [Prod.mk.injEq] at same
  obtain ⟨made, rfl⟩ := same
  obtain ⟨text, rfl, made⟩ := Option.bind_eq_some_iff.1 made
  have present : text ≠ [] := by
    rintro rfl
    cases made
  have sized : Sized (-1) headerLimit 512 := ⟨⟨0, rfl⟩, by decide, rfl⟩
  have start := readHdrLoop_found 512 [] conn sized rfl rfl (.inl rfl) present looped
  obtain ⟨joined, kept⟩ := Connection.clean_split clean start.whole
  refine ⟨text, joined, kept, start.room, ?_⟩
  rcases start.stops with ⟨seen, -, blank⟩ | ⟨-, ⟨bounded, -⟩ | ended⟩
  · obtain ⟨inside, again⟩ := headerEnd_take blank
    rw [List.length_take] at inside
    rw [List.take_take, Nat.min_eq_left (by omega), start.whole, front_append,
      List.take_left] at again
    exact .inr again
  · exact absurd bounded (by decide)
  · exact .inl (@Connection.clean_of_events last [] ended).2

theorem readHttp_parts {ulong : Nat} {conn next : Connection} {message : Message}
    (found : readHttp ulong conn (-1) = some (some message, next)) :
    ∃ hdr middle maxsize total, readHttpHdr ulong conn false (-1) = some (some hdr, middle) ∧
      readBodyLoop maxsize total [] middle = some ((message.data, message.contentSize), next) := by
  cases header : readHttpHdr ulong conn false (-1) with
  | none => simp [readHttp, header] at found
  | some outcome =>
    obtain ⟨hdr, middle⟩ := outcome
    cases hdr with
    | none => simp [readHttp, header] at found
    | some hdr =>
      rw [readHttp_header header] at found
      obtain ⟨total, -, found⟩ := Option.bind_eq_some_iff.1 found
      obtain ⟨⟨⟨data, size⟩, last⟩, looped, same⟩ := Option.map_eq_some_iff.1 found
      cases same
      exact ⟨hdr, middle, _, _, rfl, looped⟩

theorem readHttp_sound {ulong : Nat} {conn next : Connection} {message : Message}
    (clean : conn.socket.Clean)
    (found : readHttp ulong conn (-1) = some (some message, next)) :
    ∃ text, text ++ (message.data ++ next.remaining) = conn.remaining ∧
      text.length < headerLimit ∧
      (message.data ++ next.remaining = [] ∨ headerEnd text = some text.length) := by
  obtain ⟨hdr, middle, maxsize, total, header, looped⟩ := readHttp_parts found
  obtain ⟨text, joined, kept, limited, ended⟩ := readHttpHdr_sound clean header
  have rest := readBodyLoop_sound maxsize total [] middle kept looped
  rw [List.nil_append] at rest
  rw [rest]
  exact ⟨text, joined, limited, ended⟩

theorem Start.text_lines (start : Start) {hdr : Option Bytes} (type : Option Bytes)
    {lines : List Bytes} {body : Bytes} (split : hdr.getD [] = linesText lines)
    (present : body ≠ []) :
    start.text hdr type body =
      linesText (fieldLines start lines (contentType type) ++ [sizeLine body.length]) ++ crlf := by
  rw [text, split, headerText_lines start lines _ (List.length_pos_of_ne_nil present)]

theorem RoundTrip.limited {ulong : Nat} {start : Start} {hdr type : Option Bytes}
    {lines : List Bytes} {body : Bytes} (returns : RoundTrip ulong start hdr type body)
    (split : hdr.getD [] = linesText lines) (fields : Fields start lines (contentType type))
    (present : body ≠ []) : (start.text hdr type body).length < headerLimit := by
  let sender : Connection := { unget := [], socket := [], sent := { accepted := [], plan := [] } }
  have willing : sender.sent.Willing := ⟨by simp [sender], by simp [sender]⟩
  obtain ⟨sent, written, back⟩ := returns sender willing rfl
  obtain ⟨other, again, accepted⟩ := start.write_correct sender willing hdr type body
  rw [written] at again
  cases again
  obtain ⟨next, found, rest, -⟩ := back [] { sender with unget := sent.sent.accepted } rfl rfl
  obtain ⟨header, joined, limited, ended⟩ := readHttp_sound (show Source.Clean [] from rfl) found
  rw [rest, List.append_nil] at joined ended
  -- what was read as the header is what was sent of it
  have cut : header = (start.text hdr type body).take
      (wrap (start.text hdr type body).length).toNat := by
    apply List.append_cancel_right
    rw [joined]
    simpa [Connection.remaining, sender] using accepted
  by_contra large
  rcases ended with empty | blank
  · exact present empty
  · have whole := (fields.whole body.length).whole (by simp)
    rw [← start.text_lines type split present] at whole
    have early := whole.headerEnd_take [] (wrap (start.text hdr type body).length).toNat
    rw [List.append_nil, ← cut, blank] at early
    split at early
    next =>
      have same := Option.some.inj early
      omega
    next => cases early

theorem roundTrip_iff {ulong : Nat} (wide : 4294967296 ≤ ulong) {start : Start}
    {hdr type : Option Bytes} {lines : List Bytes} {body : Bytes}
    (split : hdr.getD [] = linesText lines) (fields : Fields start lines (contentType type))
    (present : body ≠ []) (small : (body.length + 1 : Int) ≤ intMax) :
    RoundTrip ulong start hdr type body ↔ (start.text hdr type body).length < headerLimit := by
  refine ⟨fun returns => returns.limited split fields present, ?_⟩
  intro limited sender willing fresh
  obtain ⟨sent, written, accepted⟩ := start.write_correct sender willing hdr type body
  refine ⟨sent, written, ?_⟩
  intro after receiver clean same
  have whole : wrap (start.text hdr type body).length = (start.text hdr type body).length :=
    wrap_of_le (by unfold intMin; omega) (by unfold headerLimit at limited; unfold intMax; omega)
  rw [accepted, fresh, whole, Int.toNat_natCast, List.take_length, List.nil_append,
    List.append_assoc] at same
  rw [Start.text, split] at limited same
  exact readHttp_correct fields wide present small limited receiver after clean same

theorem ok_valid : (Start.response 200).Valid := show ((200 : Nat) : Int) ≤ intMax by decide

theorem roundTrip_iff_ok :
    RoundTrip 4294967296 (.response 200) none none [60, 0, 62] := by
  have fields : Fields (.response 200) [] (contentType none) :=
    ⟨ok_valid, fun _ member => (nomatch member), fun _ member => (nomatch member), by decide⟩
  exact (roundTrip_iff (by decide) rfl fields (by decide) (by decide)).2 (by decide)

theorem longLine_fields (size : Nat) :
    Fields (.response 200) [List.replicate (size + 1) 97] (contentType none) := by
  refine ⟨ok_valid, ?_, ?_, by decide⟩
  · intro line member
    obtain rfl := List.mem_singleton.1 member
    refine ⟨?_, by simp⟩
    intro char member
    obtain rfl := List.eq_of_mem_replicate member
    decide
  · intro line member same
    obtain rfl := List.mem_singleton.1 member
    rw [List.replicate_succ] at same
    exact absurd (List.cons_prefix_cons.1 same).1 (by decide)

theorem longLine_text (size : Nat) (type : Option Bytes) (body : Bytes) :
    size < ((Start.response 200).text (some (linesText [List.replicate (size + 1) 97])) type
      body).length := by
  simp only [Start.text, headerText, Option.getD_some, linesText, List.flatMap_cons,
    List.length_append, List.length_replicate]
  omega

-- a header line as long as the buffer that cannot be doubled again
theorem longHeader_lost :
    ¬ RoundTrip 4294967296 (.response 200)
      (some (linesText [List.replicate (1073741823 + 1) 97])) none [0] := by
  intro returns
  have limited := returns.limited rfl (longLine_fields 1073741823) (by decide)
  have long := longLine_text 1073741823 none [0]
  unfold headerLimit at limited
  omega

end Ptp.Http
