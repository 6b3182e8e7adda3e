import Ptptl.Ptp.Connection

set_option autoImplicit false

/-! # Accepting a connection and telling its type from its first bytes -/

namespace Ptp

open Chunked

inductive ConnectionType where
  | raw
  | http
deriving DecidableEq

inductive Direction where
  | outbound
  | inbound
deriving DecidableEq

/-- What `accept` gives: the socket of a client, and its address. -/
structure Client where
  socket : Source Byte
  sent : Sink Byte
  ip : Nat
  port : Nat

structure Accepted where
  type : ConnectionType
  dir : Direction
  ip : Nat
  port : Nat
  conn : Connection

namespace Accept

def bufferSize : Nat := 64

/-- `STRNCMP_CONST`, for a text that has no NUL and is shorter than the buffer. -/
def begins (buffer text : Bytes) : Bool := text.isPrefixOf buffer

def tunnel : Bytes := ascii "PUT /tunnel HTTP/1.0\r\n"

def detect (buffer : Bytes) : ConnectionType :=
  if begins buffer tunnel then .raw
  else if begins buffer (ascii "GET ") || begins buffer (ascii "PUT ") ||
      begins buffer (ascii "POST ") then .http
  else .raw

/-- `Accept`; `stack` is what the uninitialised buffer holds. -/
def accept (type : ConnectionType) (dir : Direction) (opened : Bool) (client : Option Client)
    (detType : Bool) (stack : Block bufferSize) : Option Accepted :=
  if dir ≠ .inbound ∨ !opened then none
  else
    match client with
    | none => none
    | some client =>
      let conn : Connection := { unget := [], socket := client.socket, sent := client.sent }
      if detType then
        match conn.read bufferSize with
        | (none, _) => none
        | (some [], _) => none
        | (some (head :: tail), conn) =>
          -- the bytes behind those that were read are compared as well
          let buffer := head :: tail ++ stack.val.drop (tail.length + 1)
          some { type := detect buffer, dir := .inbound, ip := client.ip, port := client.port,
                 conn := conn.putBack (head :: tail) }
      else
        some { type := type, dir := .inbound, ip := client.ip, port := client.port, conn := conn }

def Sends (client : Client) (text : Bytes) : Prop :=
  client.socket.Clean ∧ client.socket.contents = text

/-- `Accept(1)` of an open server connection. -/
def accepts (type : ConnectionType) (client : Client) (stack : Block bufferSize) : Option Accepted :=
  accept type .inbound true (some client) true stack

def SameType (text : Bytes) : Prop :=
  ∀ (type : ConnectionType) (first second : Client) (stack other : Block bufferSize),
    Sends first text → Sends second text →
      (accepts type first stack).map Accepted.type = (accepts type second other).map Accepted.type

def Delivers (text : Bytes) : Prop :=
  ∀ (type : ConnectionType) (client : Client) (stack : Block bufferSize), Sends client text →
    ∀ accepted, accepts type client stack = some accepted →
      ∀ size, (accepted.conn.readAll size).1 = some (text.take size)

theorem accepts_cases (type : ConnectionType) {client : Client} {text : Bytes}
    (sends : Sends client text) (stack : Block bufferSize) :
    (text = [] ∧ accepts type client stack = none) ∨
      ∃ head tail rest accepted, text = head :: tail ++ rest ∧
        accepts type client stack = some accepted ∧
        accepted.type = detect (head :: tail ++ stack.val.drop (tail.length + 1)) ∧
        accepted.conn.remaining = text ∧ accepted.conn.socket.Clean := by
  obtain ⟨clean, rfl⟩ := sends
  obtain ⟨piece, next, result, split, -, ended, kept⟩ := Connection.delivers.step
    { unget := [], socket := client.socket, sent := client.sent } bufferSize clean (by decide)
  have whole : piece ++ next.remaining = client.socket.contents := by
    rw [split]
    rfl
  cases piece with
  | nil =>
    have empty : client.socket.contents = [] := ended rfl
    refine .inl ⟨empty, ?_⟩
    simp [accepts, accept, result]
  | cons head tail =>
    refine .inr ⟨head, tail, next.remaining,
      { type := detect (head :: tail ++ stack.val.drop (tail.length + 1)), dir := .inbound,
        ip := client.ip, port := client.port, conn := next.putBack (head :: tail) },
      whole.symm, ?_, rfl, ?_, kept⟩
    · simp [accepts, accept, result]
    · rw [Connection.putBack_remaining, whole]

theorem delivers (text : Bytes) : Delivers text := by
  intro type client stack sends accepted found size
  rcases accepts_cases type sends stack with
    ⟨-, none⟩ | ⟨head, tail, rest, other, -, found', -, left, clean⟩
  · rw [none] at found
    contradiction
  · obtain rfl := Option.some.inj (found.symm.trans found')
    obtain ⟨next, read, -⟩ := Connection.readAll_correct accepted.conn size clean
    rw [read, left]

theorem begins_cons {char first : Byte} {buffer text : Bytes} :
    begins (char :: buffer) (first :: text) = true ↔ first = char ∧ begins buffer text = true := by
  simp [begins, List.isPrefixOf]

theorem detect_other {char : Byte} (buffer : Bytes) (get : char ≠ 71) (put : char ≠ 80) :
    detect (char :: buffer) = .raw := by
  have none (first : Byte) (text : Bytes) (other : char ≠ first) :
      begins (char :: buffer) (first :: text) = false := by
    rw [← Bool.not_eq_true, begins_cons]
    exact fun both => other both.1.symm
  have tunnelled : begins (char :: buffer) tunnel = false := none 80 _ put
  have gets : begins (char :: buffer) (ascii "GET ") = false := none 71 _ get
  have puts : begins (char :: buffer) (ascii "PUT ") = false := none 80 _ put
  have posts : begins (char :: buffer) (ascii "POST ") = false := none 80 _ put
  simp [detect, tunnelled, gets, puts, posts]

def blank : Block bufferSize := Block.zero bufferSize

def leftover (method : String) : Block bufferSize := Block.ofBytes bufferSize (ascii method)

def apart (head : Byte) (rest : Bytes) : Client :=
  { socket := .data head [] :: Source.prepend rest [], sent := ⟨[], []⟩, ip := 0, port := 0 }

theorem apart_sends (head : Byte) (rest : Bytes) : Sends (apart head rest) (head :: rest) := by
  constructor
  · cases rest <;> rfl
  · simp [apart, Source.contents]

theorem accepts_apart (head : Byte) (rest : Bytes) (stack : Block bufferSize) :
    (accepts .http (apart head rest) stack).map Accepted.type =
      some (detect (head :: stack.val.drop 1)) := by
  rfl

/-- The type that is detected does not depend on how the bytes arrive exactly when the first of
them is no letter that a request starts with: else the buffer behind a short read decides. -/
theorem accept_segmentation_iff (text : Bytes) :
    SameType text ∧ Delivers text ↔
      ∀ char, text.head? = some char → char ≠ 71 ∧ char ≠ 80 := by
  constructor
  next =>
    rintro ⟨same, -⟩ char first
    cases text with
    | nil => contradiction
    | cons head rest =>
      obtain rfl := Option.some.inj first
      have sent := apart_sends head rest
      have both (stack : Block bufferSize) : detect (head :: stack.val.drop 1) =
          detect (head :: blank.val.drop 1) := by
        have equal := same .http _ _ stack blank sent sent
        rw [accepts_apart, accepts_apart] at equal
        exact Option.some.inj equal
      constructor
      next =>
        rintro rfl
        exact absurd (both (leftover "GET ")) (by decide)
      next =>
        rintro rfl
        exact absurd (both (leftover "PUT ")) (by decide)
  next =>
    intro other
    refine ⟨?_, delivers text⟩
    have raw (type : ConnectionType) (client : Client) (stack : Block bufferSize)
        (sends : Sends client text) : (accepts type client stack).map Accepted.type =
          if text = [] then none else some .raw := by
      rcases accepts_cases type sends stack with
        ⟨empty, none⟩ | ⟨head, tail, rest, accepted, split, found, detected, -⟩
      · rw [none, if_pos empty]
        rfl
      · obtain ⟨get, put⟩ := other head (by rw [split]; rfl)
        have present : text ≠ [] := by simp [split]
        rw [found, if_neg present, Option.map_some, detected, List.cons_append,
          detect_other _ get put]
    intro type first second stack others sends sends'
    rw [raw type first stack sends, raw type second others sends']

/-- One request, at once and with its first letter alone, over two blank buffers. -/
theorem accept_segmented :
    ¬ SameType (ascii "GET / HTTP/1.0\r\n\r\n") ∧
      (accepts .http ⟨Source.prepend (ascii "GET / HTTP/1.0\r\n\r\n") [], ⟨[], []⟩, 0, 0⟩
        blank).map Accepted.type = some .http ∧
      (accepts .http (apart 71 (ascii "ET / HTTP/1.0\r\n\r\n")) blank).map Accepted.type =
        some .raw := by
  have whole : (accepts .http
      ⟨Source.prepend (ascii "GET / HTTP/1.0\r\n\r\n") [], ⟨[], []⟩, 0, 0⟩ blank).map
        Accepted.type = some .http := by decide
  have split : (accepts .http (apart 71 (ascii "ET / HTTP/1.0\r\n\r\n")) blank).map
      Accepted.type = some .raw := by decide
  refine ⟨fun same => ?_, whole, split⟩
  have sent : Sends ⟨Source.prepend (ascii "GET / HTTP/1.0\r\n\r\n") [], ⟨[], []⟩, 0, 0⟩
      (ascii "GET / HTTP/1.0\r\n\r\n") := ⟨rfl, rfl⟩
  have equal := same .http _ _ blank blank sent (apart_sends 71 (ascii "ET / HTTP/1.0\r\n\r\n"))
  rw [whole, split] at equal
  contradiction

end Accept

end Ptp
