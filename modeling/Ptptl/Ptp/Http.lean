import Ptptl.Ptp.Connection
import Ptptl.Ptp.CString

set_option autoImplicit false

namespace Ptp

open CInt

namespace Http

def ok : Int := 200
def badRequest : Int := 400
def unauthorized : Int := 401
def notFound : Int := 404

def crlf : Bytes := [13, 10]
def lf : Byte := 10

/-- Where `UngetData` finds the end of the header. -/
def headerEnd (buffer : Bytes) : Option Nat :=
  match strstr (cString buffer) (crlf ++ crlf) with
  | some position => some (position + 4)
  | none => (strstr (cString buffer) [lf, lf]).map (· + 2)

/-- `UngetData`: the header, with what follows it put back. -/
def ungetData (conn : Connection) (buffer : Bytes) : Option (Bytes × Connection) :=
  (headerEnd buffer).map fun stop => (buffer.take stop, conn.putBack (buffer.drop stop))

def status (ulong : Nat) (text : Bytes) : Int :=
  if ascii "HTTP" <+: text then
    let text := (text.dropWhile (· ≠ 32)).dropWhile (· = 32)
    match text with
    | digit :: _ => if isdigit digit then wrap (strtoul ulong text) else badRequest
    | [] => badRequest
  else badRequest

def contentSize (ulong : Nat) (text : Bytes) : Int :=
  let field :=
    match strstr text (lf :: ascii "Content-length:") with
    | some position => some position
    | none => strstr text (lf :: ascii "Content-Length:")
  match field with
  | none => -1
  | some position => wrap (strtoul ulong (text.drop (position + 16)))

theorem read_shrinks {conn next : Connection} {size : Nat} {piece : Bytes}
    (result : conn.read size = (some piece, next)) (more : ¬ piece = []) :
    next.remaining.length < conn.remaining.length := by
  have split := congrArg List.length (Connection.read_some result).1
  have positive := List.length_pos_of_ne_nil more
  rw [List.length_append] at split
  omega

theorem doubled_above {total : Nat} {grown : Int} (doubled : checked (total * 2 : Nat) = some grown)
    (positive : ¬ total = 0) : 2147483648 - total * 2 < 2147483648 - total := by
  have bound := (checked_eq_some.1 doubled).1.2
  unfold intMax at bound
  omega

/-- The loop of `ReadHttpHdr`: `some none` is its error, `none` leaves the language. -/
def readHdrLoop (maxsize : Int) (total : Nat) (buffer : Bytes) (conn : Connection) :
    Option (Option Bytes × Connection) :=
  if total - buffer.length - 1 = 0 then
    if 0 ≤ maxsize then some (some buffer, conn)
    -- doubling 0 never ends
    else if _positive : total = 0 then none
    else
      match _doubled : checked (total * 2 : Nat) with
      | none => none
      | some _ => readHdrLoop maxsize (total * 2) buffer conn
  else
    match _result : conn.read (total - buffer.length - 1) with
    | (none, conn) => some (none, conn)
    | (some piece, conn) =>
        match ungetData conn (buffer ++ piece) with
        | some (text, conn) => some (some text, conn)
        | none =>
            if _more : piece = [] then some (some buffer, conn)
            else readHdrLoop maxsize total (buffer ++ piece) conn
termination_by (conn.remaining.length, 2147483648 - total)
decreasing_by
  · exact Prod.Lex.right _ (doubled_above _doubled _positive)
  · exact Prod.Lex.left _ _ (read_shrinks _result _more)

structure Header where
  text : Bytes
  status : Int
  contentSize : Int

/-- `ReadHttpHdr`; `given` tells whether the caller passes a buffer of `maxsize` bytes. -/
def readHttpHdr (ulong : Nat) (conn : Connection) (given : Bool) (maxsize : Int) :
    Option (Option Header × Connection) := do
  if maxsize < -1 ∨ (given ∧ maxsize < 0) then return (none, conn)
  let total : Int := if 0 ≤ maxsize then maxsize else 512
  if !given then
    let _ ← checked (total + 1)
  let (buffer, conn) ← readHdrLoop maxsize total.toNat [] conn
  match buffer with
  | none => return (none, conn)
  | some [] => return (none, conn)
  | some buffer =>
      let text := cString buffer
      return (some { text := text, status := status ulong text,
                     contentSize := contentSize ulong text }, conn)

def readBodyLoop (maxsize : Int) (total : Nat) (data : Bytes) (conn : Connection) :
    Option ((Bytes × Int) × Connection) :=
  match conn.readAll (total - data.length - 1) with
  | (none, conn) => some ((data, -1), conn)
  | (some piece, conn) =>
      if piece.length < total - data.length - 1 ∨ 0 ≤ maxsize then
        some ((data ++ piece, ((data ++ piece).length : Int)), conn)
      else if _positive : total = 0 then none
      else
        match _doubled : checked (total * 2 : Nat) with
        | none => none
        | some _ => readBodyLoop maxsize (total * 2) (data ++ piece) conn
termination_by 2147483648 - total
decreasing_by exact doubled_above _doubled _positive

structure Message where
  data : Bytes
  status : Int
  contentSize : Int

/-- `ReadHttp` with a NULL `data`, as all callers pass. -/
def readHttp (ulong : Nat) (conn : Connection) (maxsize : Int) :
    Option (Option Message × Connection) := do
  if maxsize < -1 then return (none, conn)
  let (hdr, conn) ← readHttpHdr ulong conn false maxsize
  match hdr with
  | none => return (none, conn)
  | some hdr =>
      -- the header is deleted twice
      if 0 ≤ maxsize ∧ maxsize < hdr.contentSize then none
      let total ← if 0 ≤ hdr.contentSize then checked (hdr.contentSize + 1) else some 1024
      let maxsize := if maxsize < 0 ∧ 0 < hdr.contentSize then hdr.contentSize else maxsize
      let ((data, size), conn) ← readBodyLoop maxsize total.toNat [] conn
      return (some { data := data, status := hdr.status, contentSize := size }, conn)

def requestLine (proxy : Option (Nat × Nat)) (method url : Bytes) : Bytes :=
  match proxy with
  | none => method ++ ascii " " ++ url ++ ascii " HTTP/1.0"
  | some (ip, port) =>
      method ++ ascii " http://" ++ decimal ((ip >>> 24) &&& 0xff) ++ ascii "." ++
        decimal ((ip >>> 16) &&& 0xff) ++ ascii "." ++ decimal ((ip >>> 8) &&& 0xff) ++
        ascii "." ++ decimal (ip &&& 0xff) ++ ascii ":" ++ decimal port ++ url ++
        ascii " HTTP/1.0"

def statusText (status : Int) : Bytes :=
  if status = ok then ascii " OK"
  else if status = badRequest then ascii " Bad request"
  else if status = unauthorized then ascii " Unauthorized"
  else if status = notFound then ascii " Not found"
  else []

def statusLine (status : Int) : Bytes := ascii "HTTP " ++ printInt status ++ statusText status

def headerText (start hdr type : Bytes) (size : Int) : Bytes :=
  start ++ crlf ++ hdr ++
    (if size ≠ 0 then
      ascii "Content-type: " ++ type ++ crlf ++ ascii "Content-length: " ++ printInt size ++ crlf
    else []) ++ crlf

/-- The part that the two `WriteHttp` functions share. -/
def sendHttp (conn : Connection) (start hdr : Bytes) (data : Option Bytes) (type : Option Bytes)
    (size : Int) : Option (Int × Connection) := do
  let type := type.getD (ascii "application/binary")
  let size := if size = -1 then (data.map fun data => wrap (cString data).length).getD size else size
  let buffer := headerText start hdr type size
  let hsize := wrap buffer.length
  let (written, conn) ← conn.writeAll buffer hsize
  if written ≠ hsize then return (-1, conn)
  match data with
  | none => return (0, conn)
  | some data =>
      let (written, conn) ← conn.writeAll data size
      return (if written = size then 0 else -1, conn)

/-- `WriteHttp(method, ...)`; `proxy` is the peer's address when the connection is a proxy's. -/
def writeRequest (conn : Connection) (proxy : Option (Nat × Nat)) (method url hdr : Option Bytes)
    (data : Option Bytes) (type : Option Bytes) (size : Int) : Option (Int × Connection) :=
  let start := requestLine proxy (method.getD (ascii "PUT")) (url.getD (ascii "/tunnel"))
  sendHttp conn start (hdr.getD []) data type size

/-- `WriteHttp(status, ...)`. -/
def writeResponse (conn : Connection) (status : Int) (hdr : Option Bytes) (data : Option Bytes)
    (type : Option Bytes) (size : Int) : Option (Int × Connection) :=
  sendHttp conn (statusLine status) (hdr.getD []) data type size

end Http

end Ptp
