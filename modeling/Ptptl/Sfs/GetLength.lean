import Ptptl.Ptp.HttpRoundTrip
import Ptptl.Ptp.StreamSizes
import Ptptl.Sfs.Certified
import Ptptl.Sfs.Page

set_option autoImplicit false

/-! # The length that `HandleGet` announces -/

namespace Sfs

open Ptp Ptp.Collection CInt Chunked

def plaintextFlag : Byte := 2

def readSize : Nat := 8192

def announcedSize (evp : Cipher) (key : Key) (entry : Entry) (fill : Iv) : Option Int :=
  (Key.encrypt evp key.shared.key none (wrap entry.getSize) false true true fill).map Prod.fst

def bodyBytes (evp : Cipher) (key : Key) (source : Source Byte) (fill : Iv) : Option Bytes :=
  if key.flags &&& plaintextFlag = 0 then
    -- the read size stands where `iv` is expected
    (Key.encryptStream evp key.shared.key (some source) (some Key.taking) (readSize ≠ 0) true
      Key.defaultReadSize fill).map Key.StreamResult.written
  else (Key.transfer readSize source (some Key.taking)).map Key.StreamResult.written

/-- `HandleGet` behind its `fopen`; the inner `none` is an error. -/
def sendFile (evp : Cipher) (key : Key) (entry : Entry) (source : Source Byte) (conn : Connection)
    (first second : Iv) : Option (Option Connection) := do
  let size ← announcedSize evp key entry first
  let (status, conn) ← Http.writeResponse conn Http.ok none none none size
  if status ≠ 0 then return none
  let body ← bodyBytes evp key source second
  let (_, conn) ← conn.writeAll body body.length
  return some conn

def answerHeader (size : Int) : Bytes :=
  Http.headerText (Http.statusLine Http.ok) [] (ascii "application/binary") size

section

variable {pki : Pki} (env : Env pki) (disk : CString → Option (Source Byte)) (server : Server pki)
  (hdr : Bytes)

/-- `HandleGet` with what it writes. -/
def handleGetSends (conn : Connection) (first second : Iv) : Option (Option Connection) :=
  match lookup env server hdr with
  | none => none
  | some none => some none
  | some (some (key, entry)) =>
    match entry.content with
    -- fopen of a NULL
    | .data _ _ => none
    | .file path _ =>
      match disk path with
      | none => some none
      | some source => sendFile env.cipher key entry source conn first second

def Announces : Prop :=
  ∀ conn : Connection, conn.sent.Willing → ∀ first second : Iv, ∃ next size body,
    handleGetSends env disk server hdr conn first second = some (some next) ∧ size ≠ 0 ∧
      next.sent.accepted = conn.sent.accepted ++ (answerHeader size ++ body) ∧
      (body.length : Int) = size

end

theorem answerHeader_short {size : Int} (low : intMin ≤ size) (high : size ≤ intMax) :
    ((answerHeader size).length : Int) ≤ intMax := by
  have short := Http.printInt_short low high
  have status : (Http.statusLine Http.ok).length = 11 := by decide +kernel
  have line : Http.crlf.length = 2 := rfl
  have type : (ascii "Content-type: ").length = 14 := rfl
  have binary : (ascii "application/binary").length = 18 := rfl
  have length : (ascii "Content-length: ").length = 16 := rfl
  have small : (100 : Int) ≤ intMax := by decide
  unfold answerHeader Http.headerText
  split <;> simp only [List.length_append, List.length_nil, status, line, type, binary, length] <;>
    omega

section

variable {evp : Cipher} {key : Key} {entry : Entry} {source : Source Byte}

theorem announcedSize_eq {fill : Iv} {value : Int} :
    announcedSize evp key entry fill = some value ↔
      0 < wrap entry.getSize ∧ value = wrap entry.getSize + Key.overhead true true ∧
        value ≤ intMax ∨ wrap entry.getSize ≤ 0 ∧ value = -1 :=
  Key.encrypt_sized evp key.shared.key fill none (wrap_ge entry.getSize)

theorem bodyBytes_eq (clean : source.Clean) {fill : Iv} {body : Bytes} :
    bodyBytes evp key source fill = some body ↔
      if key.flags &&& plaintextFlag = 0 then
        body = Key.cipherText evp key.shared.key true true fill source.contents ∧
          ((source.contents.length + Key.overhead true true : Nat) : Int) ≤ intMax
      else body = source.contents ∧ (source.contents.length : Int) ≤ intMax := by
  unfold bodyBytes
  split
  next =>
    exact Key.encryptStream_written evp key.shared.key true fill (by decide) (by decide) clean
  next => exact Key.transfer_written (by decide) clean

theorem announcedSize_header {fill : Iv} {size : Int}
    (given : announcedSize evp key entry fill = some size) :
    size ≠ 0 ∧ ((answerHeader size).length : Int) ≤ intMax := by
  have overhead : Key.overhead true true = 28 := rfl
  have large : (-1 : Int) ≤ intMax := by decide
  rcases announcedSize_eq.1 given with ⟨positive, same, small⟩ | ⟨_, rfl⟩
  next => exact ⟨by omega, answerHeader_short (by unfold intMin; omega) small⟩
  next => exact ⟨by omega, answerHeader_short (by decide) large⟩

theorem writeResponse_header {conn : Connection} (willing : conn.sent.Willing) {size : Int}
    (short : ((answerHeader size).length : Int) ≤ intMax) :
    ∃ next, Http.writeResponse conn Http.ok none none none size = some (0, next) ∧
      next.sent.accepted = conn.sent.accepted ++ answerHeader size ∧ next.sent.Willing := by
  have whole : wrap (answerHeader size).length = (answerHeader size).length :=
    wrap_of_le (by unfold intMin; omega) short
  obtain ⟨next, written, added, kept⟩ :=
    conn.writeAll_correct willing (answerHeader size) (Int.le_refl _)
  rw [Int.toNat_natCast, List.take_length] at added
  refine ⟨next, ?_, added, kept⟩
  unfold answerHeader at whole written
  simp only [Http.writeResponse, Http.sendHttp, Option.getD_none, Option.map_none, ite_self, whole,
    written, Option.bind_eq_bind, Option.bind_some, ne_eq, not_true, if_false]
  rfl

theorem sendFile_writes {conn : Connection} (willing : conn.sent.Willing) {first second : Iv}
    {size : Int} {body : Bytes} (given : announcedSize evp key entry first = some size)
    (content : bodyBytes evp key source second = some body) :
    ∃ next, sendFile evp key entry source conn first second = some (some next) ∧
      next.sent.accepted = conn.sent.accepted ++ (answerHeader size ++ body) := by
  obtain ⟨middle, header, added, kept⟩ :=
    writeResponse_header willing (announcedSize_header given).2
  obtain ⟨next, written, more, _⟩ :=
    middle.writeAll_correct kept body (Int.le_refl (body.length : Int))
  rw [Int.toNat_natCast, List.take_length, added, List.append_assoc] at more
  refine ⟨next, ?_, more⟩
  simp only [sendFile, given, header, content, written, Option.bind_eq_bind, Option.bind_some, ne_eq,
    not_true, if_false]
  rfl

theorem sendFile_sound {conn next : Connection} (willing : conn.sent.Willing) {first second : Iv}
    (sent : sendFile evp key entry source conn first second = some (some next)) :
    ∃ size body, announcedSize evp key entry first = some size ∧
      bodyBytes evp key source second = some body ∧
      next.sent.accepted = conn.sent.accepted ++ (answerHeader size ++ body) := by
  cases given : announcedSize evp key entry first with
  | none => simp [sendFile, given] at sent
  | some size =>
    cases content : bodyBytes evp key source second with
    | none =>
      obtain ⟨middle, header, _⟩ := writeResponse_header willing (announcedSize_header given).2
      simp [sendFile, given, header, content] at sent
    | some body =>
      obtain ⟨other, again, written⟩ := sendFile_writes willing given content
      rw [sent, Option.some.injEq, Option.some.injEq] at again
      subst again
      exact ⟨size, body, rfl, rfl, written⟩

end

section

variable {pki : Pki} {env : Env pki} {disk : CString → Option (Source Byte)} {server : Server pki}
  {hdr : Bytes}

theorem handleGetSends_file {key : Key} {entry : Entry} {path : CString} {size : Nat}
    {source : Source Byte} (found : lookup env server hdr = some (some (key, entry)))
    (content : entry.content = .file path size) (opened : disk path = some source)
    (conn : Connection) (first second : Iv) :
    handleGetSends env disk server hdr conn first second =
      sendFile env.cipher key entry source conn first second := by
  simp only [handleGetSends, found, content, opened]

theorem handleGetSends_answered (opens : ∀ path, env.opens path = (disk path).isSome)
    {conn next : Connection} {first second : Iv}
    (sent : handleGetSends env disk server hdr conn first second = some (some next)) :
    ∃ key, handleGet env server hdr = some [.answered key] := by
  rw [handleGet_lookup]
  unfold handleGetSends at sent
  split at sent
  next => contradiction
  next => simp at sent
  next key entry found =>
    split at sent
    next => contradiction
    next path _ content =>
      split at sent
      next => simp at sent
      next source opened =>
        exact ⟨key, by simp only [found, Option.bind_some, content, opens, opened,
          Option.isSome_some, if_true]⟩

theorem handleGet_announces_iff {key : Key} {entry : Entry} {path : CString} {size : Nat}
    {source : Source Byte} (found : lookup env server hdr = some (some (key, entry)))
    (content : entry.content = .file path size) (opened : disk path = some source)
    (clean : source.Clean) (unchanged : source.contents.length = size) :
    Announces env disk server hdr ↔
      key.flags &&& plaintextFlag = 0 ∧ 0 < size ∧ ((size + 28 : Nat) : Int) ≤ intMax := by
  have overhead : Key.overhead true true = 28 := rfl
  have whole : entry.getSize = size := by rw [Entry.getSize, content]
  have sends (conn : Connection) := handleGetSends_file found content opened conn
  have iv : Iv := Block.zero _
  constructor
  next =>
    intro announces
    obtain ⟨next, other, rest, sent, present, written, same⟩ :=
      announces ⟨[], [], Key.taking⟩ Key.taking_willing iv iv
    rw [sends] at sent
    obtain ⟨size', body, given, made, written'⟩ := sendFile_sound Key.taking_willing sent
    have header := announcedSize_header given
    rw [written, List.append_cancel_left_eq] at written'
    obtain ⟨rfl, rfl⟩ := Http.headerText_cancel present header.1 written'
    rw [bodyBytes_eq clean] at made
    rw [announcedSize_eq, whole] at given
    have within := wrap_le_self (Int.natCast_nonneg size)
    split at made
    next encrypted =>
      obtain ⟨rfl, small⟩ := made
      rw [Key.cipherText_length] at same
      exact ⟨encrypted, by omega, by omega⟩
    next plain =>
      obtain ⟨rfl, small⟩ := made
      rw [unchanged] at same small
      rw [wrap_of_le (by unfold intMin; omega) small] at given
      omega
  next =>
    rintro ⟨encrypted, present, small⟩ conn willing first second
    have fits : wrap (size : Int) = size := wrap_of_le (by unfold intMin; omega) (by omega)
    have given : announcedSize env.cipher key entry first =
        some ((size + 28 : Nat) : Int) := by
      rw [announcedSize_eq, whole, fits]
      exact .inl ⟨by omega, by omega, small⟩
    have made : bodyBytes env.cipher key source second =
        some (Key.cipherText env.cipher key.shared.key true true second source.contents) := by
      rw [bodyBytes_eq clean, if_pos encrypted, unchanged]
      exact ⟨rfl, small⟩
    obtain ⟨next, sent, written⟩ := @sendFile_writes _ _ _ source _ willing _ _ _ _ given made
    refine ⟨next, _, _, (sends conn first second).trans sent, by omega, written, ?_⟩
    rw [Key.cipherText_length, unchanged, overhead]

end

/-- A file of `size` bytes at its scan. -/
def sharedFile (size : Nat) : Entry :=
  { id := 1, content := .file ⟨ascii "a", List.count_eq_zero.1 rfl⟩ size }

def fileEnv (size : Nat) : Env duoPki :=
  { duoEnv with collect := { entries := [sharedFile size] }, opens := fun _ => true }

def flaggedKey (flags : Byte) : Key := { id := Block.zero _, ip := 0, flags := flags }

def fileRequest : Bytes := ascii "GET /0/1 HTTP/1.0\r\n\r\n"

theorem lookup_fileRequest (size : Nat) (flags : Byte) :
    lookup (fileEnv size) { keys := [flaggedKey flags] } fileRequest =
      some (some (flaggedKey flags, sharedFile size)) := by
  have long : ¬ fileRequest.length < 5 := by decide +kernel
  have keyid : strtoulHex 4294967296 (fileRequest.drop 5) = 0 := by decide +kernel
  have ended : strtoulHexEnd (fileRequest.drop 5) = slash :: ascii "1 HTTP/1.0\r\n\r\n" := by
    decide +kernel
  have id : strtoulHex 4294967296 (ascii "1 HTTP/1.0\r\n\r\n") = 1 := by decide +kernel
  have keyid' : strtoulHex (fileEnv size).ulong (fileRequest.drop 5) = 0 := keyid
  have id' : strtoulHex (fileEnv size).ulong (ascii "1 HTTP/1.0\r\n\r\n") = 1 := id
  have key : findKey [flaggedKey flags] 0 = some (flaggedKey flags) := rfl
  have masked : 1 ^^^ (flaggedKey flags).shadow = 1 := Nat.xor_zero 1
  have entry : (fileEnv size).collect.find 1 = some (sharedFile size) := by
    simp [fileEnv, Collection.find, sharedFile]
  rw [lookup, if_neg long, ended]
  simp only [keyid', id', key, masked, entry, Option.map_some]

theorem handleGet_announces_iff_byte :
    Announces (fileEnv 1) (fun _ => some [.data 7 []]) { keys := [flaggedKey 0] } fileRequest ↔
      (0 : Byte) &&& plaintextFlag = 0 ∧ 0 < 1 ∧ ((1 + 28 : Nat) : Int) ≤ intMax :=
  handleGet_announces_iff (lookup_fileRequest 1 0) rfl rfl rfl rfl

/-- A file of one byte that the peer's flags leave plain, and an empty one. -/
theorem handleGet_unannounced :
    (∀ iv, announcedSize duoEnv.cipher (flaggedKey 2) (sharedFile 1) iv = some 29 ∧
      bodyBytes duoEnv.cipher (flaggedKey 2) [.data 7 []] iv = some [7]) ∧
    (∀ iv, announcedSize duoEnv.cipher (flaggedKey 0) (sharedFile 0) iv = some (-1) ∧
      ∃ body, bodyBytes duoEnv.cipher (flaggedKey 0) [] iv = some body ∧ body.length = 28) ∧
    ¬ ∀ (server : Server duoPki) (hdr : Bytes) (key : Key) (entry : Entry) (path : CString)
        (size : Nat) (source : Source Byte),
      lookup (fileEnv 1) server hdr = some (some (key, entry)) → entry.content = .file path size →
        source.Clean → source.contents.length = size →
          Announces (fileEnv 1) (fun _ => some source) server hdr := by
  have clean : Source.Clean [Segment.data (7 : Byte) []] := rfl
  have int : (1 : Int) ≤ intMax := by decide
  have int' : (28 : Int) ≤ intMax := by decide
  have int'' : (29 : Int) ≤ intMax := by decide
  have plain (iv : Iv) : bodyBytes duoEnv.cipher (flaggedKey 2) [.data 7 []] iv = some [7] :=
    (bodyBytes_eq clean).2 ⟨rfl, int⟩
  refine ⟨fun iv => ⟨announcedSize_eq.2 (.inl ⟨by decide, rfl, int''⟩), plain iv⟩, fun iv =>
    ⟨announcedSize_eq.2 (.inr ⟨by decide, rfl⟩), _, (@bodyBytes_eq _ _ [] rfl _ _).2 ⟨rfl, int'⟩,
      Key.cipherText_length _ _ _ _ _ _⟩, ?_⟩
  intro all
  have found := lookup_fileRequest 1 2
  obtain ⟨next, other, rest, sent, present, written, same⟩ :=
    all _ _ _ _ _ _ [.data 7 []] found rfl clean rfl ⟨[], [], Key.taking⟩ Key.taking_willing
      (Block.zero _) (Block.zero _)
  rw [handleGetSends_file found rfl rfl] at sent
  obtain ⟨size, body, given, made, written'⟩ := sendFile_sound Key.taking_willing sent
  rw [written, List.append_cancel_left_eq] at written'
  obtain ⟨rfl, rfl⟩ := Http.headerText_cancel present (announcedSize_header given).1 written'
  have announced : announcedSize duoEnv.cipher (flaggedKey 2) (sharedFile 1) (Block.zero _) = some 29 :=
    announcedSize_eq.2 (.inl ⟨by decide, rfl, int''⟩)
  have sized := Option.some.inj (announced.symm.trans given)
  have sized' := Option.some.inj ((plain (Block.zero _)).symm.trans made)
  subst sized sized'
  contradiction

end Sfs
