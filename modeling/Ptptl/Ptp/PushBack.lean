import Ptptl.Ptp.Connection

set_option autoImplicit false

/-! # The queue of bytes put back, as pointers into a block -/

namespace Ptp

open CInt Chunked

def QueueValid : Option Bytes → Nat → Nat → Prop
  | none, next, last => next = 0 ∧ last = 0
  | some block, next, last => next < last ∧ last ≤ block.length ∧ (last : Int) ≤ intMax

/-- `m_unget`, with `m_ungetNext` and `m_ungetLast` as offsets in its block. -/
structure Queue where
  unget : Option Bytes
  next : Nat
  last : Nat
  valid : QueueValid unget next last

abbrev Given := { data : Bytes // 0 < data.length ∧ (data.length : Int) ≤ intMax }

namespace Queue

def empty : Queue where
  unget := none
  next := 0
  last := 0
  valid := ⟨rfl, rfl⟩

/-- The bytes from `m_ungetNext` to `m_ungetLast`. -/
def bytes (queue : Queue) : Bytes :=
  ((queue.unget.getD []).drop queue.next).take (queue.last - queue.next)

theorem Given.block (data : Given) : QueueValid (some data.val) 0 data.val.length :=
  ⟨data.property.1, Nat.le_refl _, data.property.2⟩

theorem bytes_length (queue : Queue) : queue.bytes.length = queue.last - queue.next := by
  obtain ⟨unget, next, last, valid⟩ := queue
  cases unget with
  | none =>
    obtain ⟨rfl, rfl⟩ := valid
    rfl
  | some block =>
    have inside := valid.2.1
    simp only [bytes, Option.getD_some, List.length_take, List.length_drop]
    omega

/-- The new block of `Unget`, with the rest of the old one. -/
def merged (queue : Queue) (data : Given) : Bytes := data.val ++ queue.bytes

theorem merged_length (queue : Queue) (data : Given) :
    (queue.merged data).length = data.val.length + (queue.last - queue.next) := by
  rw [merged, List.length_append, bytes_length]

theorem merged_valid (queue : Queue) (data : Given)
    (fits : (data.val.length : Int) + (queue.last - queue.next : Nat) ≤ intMax) :
    QueueValid (some (queue.merged data)) 0 (data.val.length + (queue.last - queue.next)) := by
  have positive := data.property.1
  exact ⟨by omega, Nat.le_of_eq (queue.merged_length data).symm, by omega⟩

/-- `Unget`; the sum of the sizes may be too large for an `int`. -/
def put (queue : Queue) (data : Given) : Option Queue :=
  match queue.unget with
  | none => some ⟨some data.val, 0, data.val.length, Given.block data⟩
  | some _ =>
    if fits : (data.val.length : Int) + (queue.last - queue.next : Nat) ≤ intMax then
      some ⟨some (queue.merged data), 0, data.val.length + (queue.last - queue.next),
        queue.merged_valid data fits⟩
    else none

theorem advance_valid (queue : Queue) {next : Nat} (more : next < queue.last) :
    QueueValid queue.unget next queue.last := by
  obtain ⟨unget, _, last, valid⟩ := queue
  cases unget with
  | none =>
    obtain ⟨rfl, rfl⟩ := valid
    exact absurd more (Nat.not_lt_zero _)
  | some block => exact ⟨more, valid.2⟩

/-- `Get`; the block is freed with its last byte. -/
def get (queue : Queue) (size : Nat) : Bytes × Queue :=
  if queue.last - queue.next = 0 then ([], queue)
  else
    let readsize := min (queue.last - queue.next) size
    let data := ((queue.unget.getD []).drop queue.next).take readsize
    if more : queue.next + readsize < queue.last then
      (data, ⟨queue.unget, queue.next + readsize, queue.last, queue.advance_valid more⟩)
    else (data, empty)

theorem put_eq (queue : Queue) (data : Given) :
    (queue.put data).map bytes =
      if (data.val.length : Int) + (queue.last - queue.next : Nat) ≤ intMax then
        some (data.val ++ queue.bytes)
      else none := by
  obtain ⟨unget, next, last, valid⟩ := queue
  cases unget with
  | none =>
    obtain ⟨rfl, rfl⟩ := valid
    have fits : (data.val.length : Int) ≤ intMax := data.property.2
    simp [put, fits, bytes]
  | some block =>
    by_cases fits : (data.val.length : Int) + (last - next : Nat) ≤ intMax
    · have whole := (Queue.mk (some block) next last valid).merged_length data
      simp only [put, dif_pos fits, if_pos fits, Option.map_some, Option.some.injEq]
      rw [bytes]
      simp only [Option.getD_some, List.drop_zero, Nat.sub_zero]
      rw [← whole, List.take_length]
      rfl
    · simp only [put, dif_neg fits, if_neg fits, Option.map_none]

theorem get_eq (queue : Queue) (size : Nat) :
    (queue.get size).1 = queue.bytes.take size ∧ (queue.get size).2.bytes = queue.bytes.drop size := by
  have length := queue.bytes_length
  have inside : queue.bytes.take size = ((queue.unget.getD []).drop queue.next).take
      (min (queue.last - queue.next) size) := by
    rw [bytes, List.take_take, Nat.min_comm]
  unfold get
  split
  next none =>
    have drained := List.length_eq_zero_iff.1 (length.trans none)
    simp [drained]
  next some =>
    simp only
    split
    next more =>
      refine ⟨inside.symm, ?_⟩
      have small : min (queue.last - queue.next) size = size := by omega
      simp only [bytes]
      rw [small, List.drop_take, List.drop_drop, Nat.sub_sub]
    next done =>
      refine ⟨inside.symm, ?_⟩
      have all : queue.bytes.length ≤ size := by omega
      rw [List.drop_of_length_le all]
      rfl

end Queue

structure Queued where
  queue : Queue
  socket : Source Byte
  sent : Sink Byte

namespace Queued

def connection (conn : Queued) : Connection where
  unget := conn.queue.bytes
  socket := conn.socket
  sent := conn.sent

def unget (conn : Queued) (data : Given) : Option Queued :=
  (conn.queue.put data).map fun queue => { conn with queue := queue }

def read (conn : Queued) (size : Nat) : Option Bytes × Queued :=
  if size = 0 then (some [], conn)
  else
    let (data, queue) := conn.queue.get size
    if data = [] then
      let (result, socket) := conn.socket.read size
      (result, { conn with queue := queue, socket := socket })
    else (some data, { conn with queue := queue })

def readAll (conn : Queued) (size : Nat) : Option Bytes × Queued := gather read size conn

theorem unget_connection (conn : Queued) (data : Given) :
    (conn.unget data).map connection =
      if (data.val.length : Int) + conn.queue.bytes.length ≤ intMax then
        some (conn.connection.putBack data.val)
      else none := by
  have put := conn.queue.put_eq data
  rw [← Queue.bytes_length] at put
  rw [unget, Option.map_map]
  cases result : conn.queue.put data with
  | none =>
    rw [result, Option.map_none] at put
    split
    next fits => simp [fits] at put
    next => rfl
  | some queue =>
    rw [result, Option.map_some] at put
    split
    next fits =>
      rw [if_pos fits, Option.some.injEq] at put
      simp only [Option.map_some, Function.comp_apply, connection, put]
      rfl
    next full => simp [full] at put

theorem read_connection (conn : Queued) (size : Nat) (positive : 0 < size) :
    conn.connection.read size = ((conn.read size).1, (conn.read size).2.connection) := by
  have present : ¬ size = 0 := by omega
  obtain ⟨data, queue⟩ := conn.queue.get_eq size
  rw [Connection.read, read, if_neg present, if_neg present]
  simp only [Connection.get, connection, data]
  cases taken : conn.queue.bytes.take size with
  | nil => simp [queue]
  | cons head tail => simp [queue]

theorem readAll_connection (conn : Queued) (size : Nat) :
    conn.connection.readAll size = ((conn.readAll size).1, (conn.readAll size).2.connection) :=
  gather_tracks read_connection size conn

/-- A call, with a positive size. -/
inductive Call where
  | unget (data : Given)
  | read (size : Nat) (positive : 0 < size) (small : (size : Int) ≤ intMax)
  | readAll (size : Nat) (positive : 0 < size) (small : (size : Int) ≤ intMax)

def call (conn : Queued) : Call → Option (Option Bytes × Queued)
  | .unget data => (conn.unget data).map fun next => (some [], next)
  | .read size _ _ => some (conn.read size)
  | .readAll size _ _ => some (conn.readAll size)

def run (conn : Queued) : List Call → Option (List (Option Bytes) × Queued)
  | [] => some ([], conn)
  | first :: calls => do
    let (result, conn) ← conn.call first
    let (results, conn) ← conn.run calls
    some (result :: results, conn)

/-- What the calls on a stream of bytes may return, and what they leave of it. -/
inductive Streams : Bytes → List Call → List (Option Bytes) → Bytes → Prop where
  | nil (stream : Bytes) : Streams stream [] [] stream
  | unget {data : Given} {stream last : Bytes} {calls : List Call} {results : List (Option Bytes)}
    (rest : Streams (data.val ++ stream) calls results last) :
    Streams stream (.unget data :: calls) (some [] :: results) last
  | read {size : Nat} {positive : 0 < size} {small : (size : Int) ≤ intMax}
    {piece stream last : Bytes} {calls : List Call} {results : List (Option Bytes)}
    (bound : piece.length ≤ size) (ends : piece = [] → stream = [])
    (rest : Streams stream calls results last) :
    Streams (piece ++ stream) (.read size positive small :: calls) (some piece :: results) last
  | readAll {size : Nat} {positive : 0 < size} {small : (size : Int) ≤ intMax}
    {stream last : Bytes} {calls : List Call} {results : List (Option Bytes)}
    (rest : Streams (stream.drop size) calls results last) :
    Streams stream (.readAll size positive small :: calls) (some (stream.take size) :: results) last

/-- Whether the queue can take what a call puts back. -/
def Room (conn : Queued) : Call → Prop
  | .unget data => (data.val.length : Int) + conn.queue.bytes.length ≤ intMax
  | _ => True

def Roomy (conn : Queued) : List Call → Prop
  | [] => True
  | first :: calls =>
    conn.Room first ∧ ∀ result next, conn.call first = some (result, next) → next.Roomy calls

def remaining (conn : Queued) : Bytes := conn.connection.remaining

theorem call_full {conn : Queued} {first : Call} (full : ¬ conn.Room first) :
    conn.call first = none := by
  cases first with
  | read | readAll => exact absurd trivial full
  | unget data =>
    have put := (conn.unget_connection data).trans (if_neg full)
    rw [Option.map_eq_none_iff] at put
    rw [call, put, Option.map_none]

theorem call_streams {conn : Queued} (clean : conn.socket.Clean) {first : Call}
    (room : conn.Room first) : ∃ result next, conn.call first = some (result, next) ∧
      next.socket.Clean ∧ ∀ calls results last, Streams next.remaining calls results last →
        Streams conn.remaining (first :: calls) (result :: results) last := by
  cases first with
  | unget data =>
    have put := (conn.unget_connection data).trans (if_pos room)
    obtain ⟨next, result, same⟩ := Option.map_eq_some_iff.1 put
    have socket : next.socket = conn.socket := congrArg Connection.socket same
    have stream : next.remaining = data.val ++ conn.remaining := by
      rw [remaining, same, Connection.putBack_remaining]
      rfl
    refine ⟨some [], next, by rw [call, result]; rfl, socket ▸ clean, ?_⟩
    intro calls results last rest
    rw [stream] at rest
    exact .unget rest
  | read size positive small =>
    have reads := conn.read_connection size positive
    obtain ⟨piece, next, result, split, bound, ended, kept⟩ :=
      Connection.delivers.step conn.connection size clean positive
    rw [reads, Prod.mk.injEq] at result
    obtain ⟨got, rfl⟩ := result
    refine ⟨some piece, (conn.read size).2, by rw [call, ← got], kept, ?_⟩
    intro calls results last rest
    rw [remaining, ← split]
    refine .read bound (fun none => ?_) rest
    have nothing := ended none
    rw [← split, List.append_eq_nil_iff] at nothing
    exact nothing.2
  | readAll size positive small =>
    have reads := conn.readAll_connection size
    obtain ⟨next, result, left, kept⟩ := conn.connection.readAll_correct size clean
    rw [reads, Prod.mk.injEq] at result
    obtain ⟨got, rfl⟩ := result
    refine ⟨some (conn.remaining.take size), (conn.readAll size).2, ?_, kept, ?_⟩
    · rw [call, remaining, ← got]
    · intro calls results last rest
      apply Streams.readAll
      rw [remaining, ← left]
      exact rest

theorem run_roomy (calls : List Call) : ∀ {conn : Queued} {results : List (Option Bytes)}
    {last : Queued}, conn.run calls = some (results, last) → conn.Roomy calls := by
  induction calls with
  | nil => exact fun _ => trivial
  | cons first calls ih =>
    intro conn results last result
    obtain ⟨⟨_, next⟩, called, result⟩ := Option.bind_eq_some_iff.1 result
    obtain ⟨⟨_, _⟩, done, _⟩ := Option.bind_eq_some_iff.1 result
    constructor
    · by_contra full
      rw [call_full full] at called
      exact absurd called (by simp)
    · intro other after called'
      obtain ⟨rfl, rfl⟩ := Prod.mk.injEq .. ▸ Option.some.inj (called.symm.trans called')
      exact ih done

theorem run_streams (calls : List Call) : ∀ {conn : Queued}, conn.socket.Clean →
    conn.Roomy calls → ∃ results last, conn.run calls = some (results, last) ∧
      Streams conn.remaining calls results last.remaining := by
  induction calls with
  | nil => exact fun _ _ => ⟨[], _, rfl, .nil _⟩
  | cons first calls ih =>
    intro conn clean roomy
    obtain ⟨result, next, called, kept, streams⟩ := call_streams clean roomy.1
    obtain ⟨results, last, done, rest⟩ := ih kept (roomy.2 result next called)
    refine ⟨result :: results, last, ?_, streams _ _ _ rest⟩
    rw [run, called]
    simp only [Option.bind_eq_bind, Option.bind_some, done]

/-- Exactly the runs whose queue keeps its length in an `int` act as on one stream of bytes. -/
theorem run_streams_iff {conn : Queued} (clean : conn.socket.Clean) (calls : List Call) :
    (∃ results last, conn.run calls = some (results, last) ∧
      Streams conn.remaining calls results last.remaining) ↔ conn.Roomy calls := by
  constructor
  next =>
    intro streams
    obtain ⟨_, _, result, _⟩ := streams
    exact run_roomy calls result
  next => exact run_streams calls clean

def freshConn (socket : Source Byte) : Queued where
  queue := .empty
  socket := socket
  sent := ⟨[], []⟩

def pairCalls : List Call :=
  [.unget ⟨[2], by decide⟩, .unget ⟨[1], by decide⟩, .readAll 4 (by decide) (by decide)]

theorem run_streams_pair :
    (freshConn [.data 3 [4, 5]]).socket.Clean ∧
      ((∃ results last, (freshConn [.data 3 [4, 5]]).run pairCalls = some (results, last) ∧
        Streams (freshConn [.data 3 [4, 5]]).remaining pairCalls results last.remaining) ↔
        (freshConn [.data 3 [4, 5]]).Roomy pairCalls) :=
  ⟨rfl, @run_streams_iff (freshConn [.data 3 [4, 5]]) rfl pairCalls⟩

theorem roomy_twice {data : Given} (roomy : (freshConn []).Roomy [.unget data, .unget data]) :
    (data.val.length : Int) + data.val.length ≤ intMax := by
  have room := (roomy.2 (some [])
    ⟨⟨some data.val, 0, data.val.length, Queue.Given.block data⟩, [], ⟨[], []⟩⟩ rfl).1
  rw [Room, Queue.bytes_length] at room
  exact room

def largeBlock : Given := ⟨List.replicate 1073741824 0, by
  rw [List.length_replicate]
  decide⟩

theorem run_overflows : ¬ ∀ (conn : Queued) (calls : List Call), conn.socket.Clean →
    ∃ results last, conn.run calls = some (results, last) ∧
      Streams conn.remaining calls results last.remaining := by
  intro always
  obtain ⟨results, last, result, _⟩ :=
    always (freshConn []) [.unget largeBlock, .unget largeBlock] rfl
  have room := roomy_twice (run_roomy _ result)
  have length : largeBlock.val.length = 1073741824 := List.length_replicate
  rw [length] at room
  exact absurd room (by decide)

end Queued

end Ptp
