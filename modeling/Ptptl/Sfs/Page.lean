import Ptptl.Ptp.HexText
import Ptptl.Ptp.HttpRoundTrip
import Ptptl.Sfs.Share

set_option autoImplicit false

/-! # The page that answers a search, and the URLs in it -/

namespace Sfs

open Ptp Ptp.Collection CInt

variable {pki : Pki}

/-- `http://%lu.%lu.%lu.%lu:%u`, without the slashes. -/
def hostText (ip port : Nat) : Bytes :=
  decimal ((ip >>> 24) &&& 0xff) ++ ascii "." ++ decimal ((ip >>> 16) &&& 0xff) ++ ascii "." ++
    decimal ((ip >>> 8) &&& 0xff) ++ ascii "." ++ decimal (ip &&& 0xff) ++ ascii ":" ++ decimal port

def filePath (key : Key) (entry : Entry) : Bytes :=
  slash :: (hexPadded key.shared.keyid ++ slash :: hexPadded (entry.id ^^^ key.shadow))

def fileUrl (ip port : Nat) (key : Key) (entry : Entry) : Bytes :=
  ascii "http://" ++ (hostText ip port ++ filePath key entry)

def fileLink (ip port : Nat) (key : Key) (entry : Entry) : Bytes :=
  ascii "<A HREF=\"" ++ fileUrl ip port key entry ++ ascii "\">" ++ entry.getName.val ++
    ascii "</A><BR>\n"

def pageText (ip port : Nat) (key : Key) (entries : List Entry) : Bytes :=
  ascii "<HTML>\n" ++ entries.flatMap (fileLink ip port key) ++ ascii "</HTML>\n"

/-- `sizeof(buffer)`. -/
def pageSize : Nat := 2048

structure Page where
  key : Key
  entries : List Entry
  text : Bytes

/-- `HandleSearch` up to its reply, with the page in its buffer. -/
def searchPage (env : Env pki) (ip port : Nat) (server : Server pki) (data : Bytes) :
    Option (Option Page) :=
  match findKey server.keys (get32 data) with
  | none => some none
  | some key => do
    let (size, plain) ← Key.decrypt env.cipher key.shared.key (some (data.drop 4))
      ((data.length : Int) - 4) true true true
    if size ≤ 0 then some none
    else
      let entries := env.collect.findPat (cString plain)
      let text := pageText ip port key entries
      -- sprintf and Encrypt write past the buffer
      if pageSize < text.length + Key.overhead true true then none
      else some (some ⟨key, entries, text⟩)

/-- What `HandleGet` looks up. -/
def lookup (env : Env pki) (server : Server pki) (hdr : Bytes) : Option (Option (Key × Entry)) :=
  if hdr.length < 5 then none
  else
    match strtoulHexEnd (hdr.drop 5) with
    | [] => none
    | _ :: rest =>
      match findKey server.keys (strtoulHex env.ulong (hdr.drop 5)) with
      | none => some none
      | some key =>
        some ((env.collect.find (strtoulHex env.ulong rest ^^^ key.shadow)).map
          fun entry => (key, entry))

theorem handleGet_lookup (env : Env pki) (server : Server pki) (hdr : Bytes) :
    handleGet env server hdr = (lookup env server hdr).bind fun found =>
      match found with
      | none => some []
      | some (key, entry) =>
        match entry.content with
        | .data _ _ => none
        | .file path _ => if env.opens path then some [.answered key] else some [] := by
  unfold handleGet lookup
  split
  next => rfl
  next =>
    simp only
    cases ended : strtoulHexEnd (hdr.drop 5) with
    | nil => rfl
    | cons _ rest =>
      simp only
      cases findKey server.keys (strtoulHex env.ulong (hdr.drop 5)) with
      | none => rfl
      | some key =>
        simp only
        cases env.collect.find (strtoulHex env.ulong rest ^^^ key.shadow) <;> rfl

/-- The path that the client's `Get` cuts out of a URL; without a slash it is NULL. -/
def urlPath (url : Bytes) : Option Bytes :=
  let text := if ascii "http://" <+: url then url.drop 7 else url
  match text.dropWhile (· ≠ slash) with
  | [] => none
  | path => some path

/-- The line of the request that `Get` sends over a direct connection. -/
def getLine (url : Bytes) : Bytes :=
  Http.requestLine none (ascii "GET") ((urlPath url).getD (ascii "/tunnel"))

set_option maxRecDepth 4000 in
theorem hostText_plain (ip port : Nat) : ∀ char ∈ hostText ip port, char ≠ slash := by
  have digits (value : Nat) : ∀ char ∈ decimal value, char ≠ slash := by
    intro char member
    have digit := decimal_isdigit value char member
    rintro rfl
    exact absurd digit (by decide)
  have dot : ∀ char ∈ ascii ".", char ≠ slash := by decide
  have colon : ∀ char ∈ ascii ":", char ≠ slash := by decide
  intro char member
  simp only [hostText, List.mem_append] at member
  rcases member with ((((((((member | member) | member) | member) | member) | member) | member) |
    member) | member)
  · exact digits _ char member
  · exact dot char member
  · exact digits _ char member
  · exact dot char member
  · exact digits _ char member
  · exact dot char member
  · exact digits _ char member
  · exact colon char member
  · exact digits _ char member

theorem urlPath_fileUrl (ip port : Nat) (key : Key) (entry : Entry) :
    urlPath (fileUrl ip port key entry) = some (filePath key entry) := by
  have front : ascii "http://" <+: fileUrl ip port key entry := List.prefix_append _ _
  have host : (fileUrl ip port key entry).drop 7 = hostText ip port ++ filePath key entry :=
    List.drop_left' rfl
  have cut : (hostText ip port ++ filePath key entry).dropWhile (· ≠ slash) = filePath key entry := by
    rw [List.dropWhile_append_of_pos fun char member =>
      decide_eq_true (hostText_plain ip port char member)]
    simp [filePath]
  simp only [urlPath, front, if_true, host, cut]
  rfl

theorem getLine_fileUrl (ip port : Nat) (key : Key) (entry : Entry) :
    getLine (fileUrl ip port key entry) = ascii "GET /" ++ (hexPadded key.shared.keyid ++
      slash :: (hexPadded (entry.id ^^^ key.shadow) ++ ascii " HTTP/1.0")) := by
  have path : ascii "GET" ++ ascii " " ++ [slash] = ascii "GET /" := rfl
  rw [getLine, urlPath_fileUrl, Option.getD_some, Http.requestLine, filePath, ← path]
  simp

theorem xor_cancel (value mask : Nat) : value ^^^ mask ^^^ mask = value := by
  rw [Nat.xor_assoc, Nat.xor_self, Nat.xor_zero]

theorem lookup_getLine (env : Env pki) (server : Server pki) (ip port : Nat) {key : Key}
    {entry : Entry} (number : key.shared.keyid < env.ulong)
    (masked : entry.id ^^^ key.shadow < env.ulong) (rest : Bytes) :
    lookup env server (getLine (fileUrl ip port key entry) ++ Http.crlf ++ rest) =
      match findKey server.keys key.shared.keyid with
      | none => some none
      | some found => some ((env.collect.find (entry.id ^^^ key.shadow ^^^ found.shadow)).map
          fun entry => (found, entry)) := by
  have long : ¬ (getLine (fileUrl ip port key entry) ++ Http.crlf ++ rest).length < 5 := by
    rw [getLine_fileUrl]
    simp [ascii]
  have start : (getLine (fileUrl ip port key entry) ++ Http.crlf ++ rest).drop 5 =
      hexPadded key.shared.keyid ++ (slash :: (hexPadded (entry.id ^^^ key.shadow) ++
        (ascii " HTTP/1.0" ++ Http.crlf ++ rest))) := by
    have get : (ascii "GET /").length = 5 := rfl
    rw [getLine_fileUrl, List.append_assoc, List.append_assoc, List.drop_left' get]
    simp
  have space : (ascii " HTTP/1.0" ++ Http.crlf ++ rest).takeWhile isxdigit = [] := rfl
  have behind : (slash :: (hexPadded (entry.id ^^^ key.shadow) ++
      (ascii " HTTP/1.0" ++ Http.crlf ++ rest))).takeWhile isxdigit = [] := rfl
  have one := strtoulHex_hexPadded number behind
  have two := strtoulHex_hexPadded masked space
  simp only [lookup, long, if_false, start, one.1, one.2, two.1]

end Sfs
