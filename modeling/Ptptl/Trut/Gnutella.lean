import Ptptl.Ptp.CString
import Ptptl.Ptp.Connection

set_option autoImplicit false

namespace Trut

open Ptp CInt

namespace Gnutella

def connectRequest : Bytes := ascii "GNUTELLA CONNECT/0.4\n\n"
def connectResponse : Bytes := ascii "GNUTELLA OK\n\n"

/-- `sizeof(Gnutella::Packet)`. -/
def headerSize : Nat := 23

/-- `pkt->size`, after the guid, type, ttl and hops. -/
def sizeField (packet : Bytes) : Bytes := (packet.drop 19).take 4

/-- `Get32`, on a little-endian machine. -/
def get32 (field : Bytes) : Nat := field.foldr (fun byte rest => byte.toNat + 256 * rest) 0

structure WellFormed (packet : Bytes) : Prop where
  header : headerSize ≤ packet.length
  payload : packet.length = headerSize + get32 (sizeField packet)

end Gnutella

open Gnutella

/-- `STRNCMP_CONST(buffer, text) == 0` where only `buffer` was written: a comparison that goes on
past it reads indeterminate bytes. -/
def strncmpConst (buffer text : Bytes) : Option Bool :=
  if text <+: buffer then some true
  else if buffer <+: text then none
  else some false

namespace Host

/-- The size that `SendGnutella` gives to `WriteAll`. -/
def sendSize (pkt : Bytes) : Option Int := do
  if ← strncmpConst pkt (ascii "GNUTELLA") then
    -- strlen: a packet without a NUL is read past its end
    if 0 ∈ pkt then some (cString pkt).length else none
  else if headerSize ≤ pkt.length then some (wrap (headerSize + get32 (sizeField pkt)))
  else none

def sendGnutella (conn : Connection) (pkt : Bytes) : Option Connection := do
  let size ← sendSize pkt
  let (_, conn) ← conn.writeAll pkt size
  some conn

/-- `sizeof(buffer)`. -/
def bufferSize : Nat := 512

/-- What `ReceiveGnutella` returns: the bytes of the block that were written, and how many at its
end were not. -/
structure Received where
  bytes : Bytes
  missing : Nat
deriving DecidableEq

def greeting (buffer : Bytes) : Option Bool :=
  match strncmpConst buffer connectRequest with
  | none => none
  | some true => some true
  | some false => strncmpConst buffer connectResponse

/-- The local variable `size`. -/
def receiveSize (buffer : Bytes) : Option Int :=
  match greeting buffer with
  | none => none
  | some true => some buffer.length
  | some false =>
    if headerSize ≤ buffer.length then some (wrap (headerSize + get32 (sizeField buffer)))
    else none

def receiveGnutella (conn : Connection) : Option (Option Received × Connection) :=
  match conn.read (bufferSize - 1) with
  | (none, conn) => some (none, conn)
  | (some [], conn) => some (none, conn)
  | (some buffer, conn) => do
    let size ← receiveSize buffer
    if size < 0 then some (none, conn)
    -- memcpy(pkt, buffer, readsize) writes past a shorter block
    else if size < buffer.length then none
    else
      match conn.readAll (size.toNat - buffer.length) with
      | (none, conn) => some (none, conn)
      | (some more, conn) =>
        let bytes := buffer ++ more
        some (some ⟨bytes, size.toNat - bytes.length⟩, conn)

/-- The packets that the first `count` turns of `HostThread` get; a NULL ends its loop. -/
def receiveAll : Nat → Connection → Option (List Received × Connection)
  | 0, conn => some ([], conn)
  | count + 1, conn => do
    match ← receiveGnutella conn with
    | (none, conn) => some ([], conn)
    | (some pkt, conn) => do
      let (pkts, conn) ← receiveAll count conn
      some (pkt :: pkts, conn)

theorem sizeField_front {buffer packet : Bytes} (front : buffer <+: packet)
    (header : headerSize ≤ buffer.length) : sizeField buffer = sizeField packet := by
  obtain ⟨rest, rfl⟩ := front
  unfold headerSize at header
  unfold sizeField
  rw [List.drop_append_of_le_length (by omega), List.take_append_of_le_length]
  rw [List.length_drop]
  omega

def Greeting (bytes : Bytes) : Prop := connectRequest <+: bytes ∨ connectResponse <+: bytes

instance (bytes : Bytes) : Decidable (Greeting bytes) :=
  inferInstanceAs (Decidable (_ ∨ _))

theorem greeting_front {buffer packet : Bytes} (front : buffer <+: packet)
    (header : headerSize ≤ buffer.length) : Greeting buffer ↔ Greeting packet := by
  have same (text : Bytes) (short : text.length ≤ headerSize) :
      text <+: buffer ↔ text <+: packet := by
    constructor
    · intro here
      exact here.trans front
    · intro there
      exact List.prefix_of_prefix_length_le there front (Nat.le_trans short header)
  unfold Greeting
  rw [same connectRequest (by decide), same connectResponse (by decide)]

theorem strncmpConst_some {buffer text : Bytes} {equal : Bool}
    (result : strncmpConst buffer text = some equal) : equal = true ↔ text <+: buffer := by
  unfold strncmpConst at result
  split at result
  next present => simp_all
  next absent =>
    split at result
    · simp at result
    · simp_all

theorem strncmpConst_long {buffer text : Bytes} (long : text.length < buffer.length) :
    strncmpConst buffer text = some (decide (text <+: buffer)) := by
  have other : ¬ buffer <+: text := by
    intro front
    have shorter := front.length_le
    omega
  unfold strncmpConst
  split <;> simp_all

theorem sendGnutella_whole {conn : Connection} (willing : conn.sent.Willing) {packet : Bytes}
    (wellFormed : WellFormed packet) (plain : ¬ ascii "GNUTELLA" <+: packet)
    (small : packet.length ≤ intMax) : ∃ next, sendGnutella conn packet = some next ∧
      next.sent.accepted = conn.sent.accepted ++ packet ∧ next.sent.Willing := by
  have long : (ascii "GNUTELLA").length < packet.length :=
    Nat.lt_of_lt_of_le (by decide) wellFormed.header
  have total := wellFormed.payload
  have value : wrap (packet.length : Int) = packet.length :=
    wrap_of_le (by unfold intMin; omega) small
  have size : sendSize packet = some (packet.length : Int) := by
    simp [sendSize, strncmpConst_long long, plain, wellFormed.header, ← Int.natCast_add, ← total,
      value]
  obtain ⟨next, written, added, kept⟩ :=
    conn.writeAll_correct willing packet (Int.le_refl packet.length)
  refine ⟨next, by simp [sendGnutella, size, written], ?_, kept⟩
  simpa using added

theorem greeting_some {buffer : Bytes} {found : Bool} (result : greeting buffer = some found) :
    found = true ↔ Greeting buffer := by
  unfold greeting at result
  unfold Greeting
  cases first : strncmpConst buffer connectRequest with
  | none => simp [first] at result
  | some request =>
    have decided := strncmpConst_some first
    cases request with
    | true => simp_all
    | false =>
      rw [first] at result
      simp [strncmpConst_some result, ← decided]

theorem greeting_long {buffer : Bytes} (header : headerSize ≤ buffer.length) :
    greeting buffer = some (decide (Greeting buffer)) := by
  have request : connectRequest.length < buffer.length := Nat.lt_of_lt_of_le (by decide) header
  have response : connectResponse.length < buffer.length := Nat.lt_of_lt_of_le (by decide) header
  unfold greeting Greeting
  rw [strncmpConst_long request, strncmpConst_long response]
  by_cases first : connectRequest <+: buffer <;> simp [first]

theorem receiveSize_some {buffer : Bytes} {size : Int} (result : receiveSize buffer = some size) :
    (Greeting buffer ∧ size = buffer.length) ∨
    (¬ Greeting buffer ∧ headerSize ≤ buffer.length ∧
      size = wrap (headerSize + get32 (sizeField buffer))) := by
  unfold receiveSize at result
  split at result
  next => simp at result
  next found =>
    left
    exact ⟨(greeting_some found).1 rfl, by simpa using result.symm⟩
  next plain =>
    split at result
    next header =>
      right
      refine ⟨?_, header, by simpa using result.symm⟩
      intro greeting
      simpa using (greeting_some plain).2 greeting
    next => simp at result

theorem receiveGnutella_some {conn next : Connection} {pkt : Received}
    (result : receiveGnutella conn = some (some pkt, next)) : ∃ buffer rest size,
      conn.read (bufferSize - 1) = (some buffer, rest) ∧ receiveSize buffer = some size ∧
        (buffer.length : Int) ≤ size ∧ buffer <+: pkt.bytes ∧
        ((pkt.bytes.length + pkt.missing : Nat) : Int) = size := by
  unfold receiveGnutella at result
  split at result
  next => simp at result
  next => simp at result
  next buffer rest present read =>
    simp only [Option.bind_eq_bind, Option.bind_eq_some_iff] at result
    obtain ⟨size, counted, result⟩ := result
    refine ⟨buffer, rest, size, read, counted, ?_⟩
    split at result
    next => simp at result
    next =>
      split at result
      next => simp at result
      next fits =>
        split at result
        next => simp at result
        next more last gathered =>
          simp only [Option.some.injEq, Prod.mk.injEq] at result
          obtain ⟨rfl, rfl⟩ := result
          have bound := Connection.readAll_length gathered
          refine ⟨by omega, List.prefix_append _ _, ?_⟩
          simp only [List.length_append]
          omega

/-- When a packet is received whole: its bytes start a read that holds its header and nothing
after it, or that is exactly the packet when it starts like a connection message. -/
def Fits (packet : Bytes) (readsize : Nat) : Prop :=
  if Greeting packet then readsize = packet.length
  else headerSize ≤ readsize ∧ readsize ≤ packet.length ∧ packet.length ≤ intMax

instance (packet : Bytes) (readsize : Nat) : Decidable (Fits packet readsize) := by
  unfold Fits
  infer_instance

/-- Every packet of a sequence fits the read that its first byte starts. -/
def Aligned : List Bytes → Chunked.Source Byte → Prop
  | [], _ => True
  | packet :: packets, arrivals =>
    Fits packet (min (bufferSize - 1) arrivals.available) ∧
      Aligned packets (arrivals.advance packet.length)

theorem arrivals_nonempty {conn : Connection} (clean : conn.socket.Clean) {packet rest : Bytes}
    (present : headerSize ≤ packet.length) (delivered : conn.remaining = packet ++ rest) :
    0 < conn.arrivals.available ∧ conn.arrivals.available ≤ (packet ++ rest).length := by
  have contents := conn.arrivals_contents
  have noFailure := Connection.arrivals_clean.2 clean
  rw [delivered] at contents
  unfold headerSize at present
  generalize conn.arrivals = arrivals at *
  match arrivals with
  | [] =>
    have lengths := congrArg List.length contents
    simp at lengths
    omega
  | .failure :: _ => simp [Chunked.Source.Clean, Chunked.Source.failures] at noFailure
  | .data head tail :: _ =>
    have lengths := congrArg List.length contents
    simp only [Chunked.Source.contents, List.length_append, List.length_cons] at lengths
    simp only [Chunked.Source.available, List.length_append]
    omega

theorem Fits.bounds {packet : Bytes} {readsize : Nat} (fits : Fits packet readsize)
    (header : headerSize ≤ packet.length) : headerSize ≤ readsize ∧ readsize ≤ packet.length := by
  unfold Fits at fits
  split at fits
  · omega
  · exact ⟨fits.1, fits.2.1⟩

theorem receiveSize_fits {buffer packet : Bytes} (front : buffer <+: packet)
    (wellFormed : WellFormed packet) (fits : Fits packet buffer.length) :
    receiveSize buffer = some (packet.length : Int) := by
  have held := (fits.bounds wellFormed.header).1
  have same := greeting_front front held
  unfold Fits at fits
  unfold receiveSize
  rw [greeting_long held]
  by_cases greets : Greeting packet
  · rw [if_pos greets] at fits
    simp [same.2 greets, fits]
  · rw [if_neg greets] at fits
    have total := wellFormed.payload
    have value : wrap (packet.length : Int) = packet.length :=
      wrap_of_le (by unfold intMin; omega) fits.2.2
    simp [mt same.1 greets, held, sizeField_front front held, ← Int.natCast_add, ← total, value]

theorem receiveGnutella_whole {conn : Connection} (clean : conn.socket.Clean)
    {packet rest : Bytes} (wellFormed : WellFormed packet)
    (delivered : conn.remaining = packet ++ rest)
    (fits : Fits packet (min (bufferSize - 1) conn.arrivals.available)) : ∃ next,
      receiveGnutella conn = some (some ⟨packet, 0⟩, next) ∧
        next.arrivals = conn.arrivals.advance packet.length := by
  obtain ⟨first, read, advanced⟩ := Connection.read_arrivals clean (by decide : 0 < bufferSize - 1)
  generalize min (bufferSize - 1) conn.arrivals.available = readsize at *
  have noFailure := Connection.arrivals_clean.2 clean
  have bounds := fits.bounds wellFormed.header
  have clean' : first.socket.Clean := by
    rw [← Connection.arrivals_clean, advanced]
    exact Chunked.Source.advance_clean noFailure readsize
  have left : first.remaining = conn.remaining.drop readsize := by
    rw [← Connection.arrivals_contents, advanced, Chunked.Source.advance_contents noFailure,
      Connection.arrivals_contents]
  obtain ⟨last, gathered, finished⟩ :=
    Connection.readAll_arrivals clean' (packet.length - readsize)
  rw [delivered, List.take_append_of_le_length bounds.2] at read
  rw [left, delivered, List.drop_append_of_le_length bounds.2,
    List.take_append_of_le_length (by simp), List.take_of_length_le (by simp)] at gathered
  refine ⟨last, ?_, ?_⟩
  · have length : (packet.take readsize).length = readsize := List.length_take_of_le bounds.2
    have counted := receiveSize_fits (List.take_prefix readsize packet) wellFormed
      (length.symm ▸ fits)
    unfold receiveGnutella
    rw [read]
    split
    next failed => simp at failed
    next empty =>
      simp only [Prod.mk.injEq, Option.some.injEq] at empty
      have positive := bounds.1
      rw [← length, empty.1] at positive
      exact absurd positive (by decide)
    next buffer conn present some =>
      simp only [Prod.mk.injEq, Option.some.injEq] at some
      obtain ⟨rfl, rfl⟩ := some
      have nonneg : ¬ (packet.length : Int) < 0 := by omega
      have fitting : ¬ (packet.length : Int) < readsize := by omega
      simp only [counted, Option.bind_eq_bind, Option.bind_some, length, if_neg nonneg,
        if_neg fitting, Int.toNat_natCast, gathered, List.take_append_drop, Nat.sub_self]
  · rw [finished, advanced, Chunked.Source.advance_advance]
    congr 1
    omega

theorem fits_of_received {conn next : Connection} (clean : conn.socket.Clean)
    {packet rest : Bytes} (wellFormed : WellFormed packet)
    (delivered : conn.remaining = packet ++ rest)
    (result : receiveGnutella conn = some (some ⟨packet, 0⟩, next)) :
    Fits packet (min (bufferSize - 1) conn.arrivals.available) := by
  obtain ⟨first, read, -⟩ := Connection.read_arrivals clean (by decide : 0 < bufferSize - 1)
  obtain ⟨buffer, _, size, again, counted, within, front, total⟩ := receiveGnutella_some result
  have bounds := arrivals_nonempty clean wellFormed.header delivered
  rw [read, Prod.mk.injEq, Option.some.injEq] at again
  have length : buffer.length = min (bufferSize - 1) conn.arrivals.available := by
    rw [← again.1, delivered, List.length_take]
    omega
  rw [← length]
  simp only [Nat.add_zero] at total front
  have header := wellFormed.header
  unfold Fits
  rcases receiveSize_some counted with ⟨greets, whole⟩ | ⟨plain, held, wrapped⟩
  · have same : buffer = packet := front.eq_of_length (by omega)
    rw [← same, if_pos greets]
  · rw [if_neg (mt (greeting_front front held).2 plain)]
    refine ⟨held, front.length_le, ?_⟩
    rw [total, wrapped]
    exact wrap_le _

/-- Framing is exactly alignment: over any arrivals, successive calls return the packets written,
each complete, and leave the bytes after them, if and only if every packet fits its read. -/
theorem receiveAll_iff (conn : Connection) (packets : List Bytes) (rest : Bytes)
    (clean : conn.socket.Clean) (wellFormed : ∀ packet ∈ packets, WellFormed packet)
    (delivered : conn.remaining = packets.flatten ++ rest) :
    (∃ next, receiveAll packets.length conn = some (packets.map (⟨·, 0⟩), next) ∧
      next.remaining = rest) ↔ Aligned packets conn.arrivals := by
  induction packets generalizing conn with
  | nil =>
    simp only [List.flatten_nil, List.nil_append] at delivered
    simp [receiveAll, Aligned, delivered]
  | cons packet packets ih =>
    have here := wellFormed packet List.mem_cons_self
    have later := fun other member => wellFormed other (List.mem_cons_of_mem packet member)
    rw [List.flatten_cons, List.append_assoc] at delivered
    have after {next : Connection} (advanced : next.arrivals = conn.arrivals.advance packet.length) :
        next.socket.Clean ∧ next.remaining = packets.flatten ++ rest := by
      have noFailure := Connection.arrivals_clean.2 clean
      constructor
      · rw [← Connection.arrivals_clean, advanced]
        exact Chunked.Source.advance_clean noFailure _
      · rw [← Connection.arrivals_contents, advanced, Chunked.Source.advance_contents noFailure,
          Connection.arrivals_contents, delivered, List.drop_left]
    simp only [List.length_cons, List.map_cons, receiveAll, Aligned]
    constructor
    · rintro ⟨last, received, left⟩
      simp only [Option.bind_eq_bind, Option.bind_eq_some_iff] at received
      obtain ⟨⟨first, next⟩, result, received⟩ := received
      cases first with
      | none => simp at received
      | some first =>
        simp only [Option.bind_eq_some_iff, Option.some.injEq, Prod.mk.injEq, List.cons.injEq] at received
        obtain ⟨⟨others, end'⟩, received, ⟨rfl, rfl⟩, rfl⟩ := received
        have fits := fits_of_received clean here delivered result
        obtain ⟨again, same, advanced⟩ := receiveGnutella_whole clean here delivered fits
        rw [result] at same
        obtain ⟨-, rfl⟩ := Prod.mk.injEq .. ▸ Option.some.injEq .. ▸ same
        obtain ⟨clean', delivered'⟩ := after advanced
        refine ⟨fits, ?_⟩
        rw [← advanced]
        exact (ih next clean' later delivered').1 ⟨_, received, left⟩
    · rintro ⟨fits, aligned⟩
      obtain ⟨next, result, advanced⟩ := receiveGnutella_whole clean here delivered fits
      obtain ⟨clean', delivered'⟩ := after advanced
      rw [← advanced] at aligned
      obtain ⟨last, received, left⟩ := (ih next clean' later delivered').2 aligned
      exact ⟨last, by simp [result, received], left⟩

def ping : Bytes := List.replicate 17 0 ++ [7, 0] ++ List.replicate 4 0

def query : Bytes := List.replicate 16 0 ++ [128, 7, 0, 5, 0, 0, 0] ++ [0, 0] ++ ascii "ca" ++ [0]

theorem ping_wellFormed : WellFormed ping := ⟨by decide, by decide⟩

theorem query_wellFormed : WellFormed query := ⟨by decide, by decide⟩

theorem receiveAll_iff_split :
    let conn : Connection := ⟨query.take 25, [.data 99 (97 :: 0 :: ping)], ⟨[], []⟩⟩
    ∃ next, receiveAll 2 conn = some ([⟨query, 0⟩, ⟨ping, 0⟩], next) ∧ next.remaining = [] :=
  (receiveAll_iff ⟨query.take 25, [.data 99 (97 :: 0 :: ping)], ⟨[], []⟩⟩ [query, ping] []
    rfl (by simp [query_wellFormed, ping_wellFormed]) (by decide)).2
    ⟨by decide, by decide, trivial⟩

/-- One read that returns two packets: the second is copied past the block of the first. -/
theorem receiveAll_coalesced :
    let conn : Connection := ⟨[], [.data 0 (ping.drop 1 ++ ping)], ⟨[], []⟩⟩
    (∀ packet ∈ [ping, ping], WellFormed packet) ∧ conn.socket.Clean ∧
      conn.remaining = [ping, ping].flatten ∧ receiveAll 2 conn = none :=
  ⟨by simp [ping_wellFormed], rfl, by decide, by decide⟩

end Host

end Trut
