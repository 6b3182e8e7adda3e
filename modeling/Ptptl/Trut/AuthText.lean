import Mathlib.Data.Nat.Digits.Defs
import Ptptl.Ptp.Collection
import Ptptl.Ptp.Encode
import Ptptl.Ptp.HttpText

set_option autoImplicit false

/-! # Values in the headers of the authentication -/

namespace Trut

open Ptp Ptp.Collection Ptp.Http Search

def colon : Byte := 58

-- what strspn passes before a value
def isBlank (char : Byte) : Bool := char == 32 || char == 9

def isBase64 (char : Byte) : Bool := Encoding.encodeTable.contains char

/-- `GetAuthValue`; `none` where the value does not fill the caller's buffer, or overflows it. -/
def getAuthValue (hdr name : Bytes) (size : Nat) : Option (Option (Block size)) :=
  match findMarked colon name hdr with
  | none => some none
  | some rest =>
    let value := Encoding.decodeBase64 ((rest.dropWhile isBlank).takeWhile isBase64)
    if fills : value.length = size then some (some ⟨value, fills⟩) else none

-- EncodeBase64 on one line, of a value that is not empty
def valueText (value : Bytes) : Bytes := (Encoding.encodeBase64 value value.length).getD []

def field (name value : Bytes) : Bytes := name ++ ascii ": " ++ valueText value

def appendAuthValue (hdr name value : Bytes) : Bytes := hdr ++ (field name value ++ crlf)

/-- `%04lx`. -/
def hexText (value : Nat) : Bytes :=
  let digits := (Nat.digits 16 value).reverse.map fun digit =>
    (if digit < 10 then 48 + digit else 87 + digit).toUInt8
  List.replicate (4 - digits.length) 48 ++ digits

def identity : Bytes := ascii "Identity"
def challenge : Bytes := ascii "Challenge"
def response : Bytes := ascii "Response"

def fieldNames : List Bytes := [identity, challenge, response]

/-- What `Get` asks for: a file of a group. -/
def getsLine (group : CString) (ref : Nat) : Bytes :=
  ascii "GET /gets/" ++ group.val ++ ascii "/" ++ hexText ref ++ ascii " HTTP/1.0"

def keepAlive : Bytes := ascii "Connection: Keep-Alive"

def getsRequest (group : CString) (ref : Nat) : Bytes :=
  getsLine group ref ++ crlf ++ keepAlive ++ crlf

/-! # Lines -/

theorem valueText_line {value : Bytes} (present : value ≠ []) : ∃ body pads,
    Encoding.Line value body pads ∧ valueText value = body ++ pads := by
  obtain ⟨body, pads, line⟩ := Encoding.encodeBase64_line present
  exact ⟨body, pads, line, by rw [valueText, line.encoded]; rfl⟩

set_option maxRecDepth 4000 in
theorem table_plain : ∀ char ∈ Encoding.encodeTable, (char ≠ 0 ∧ char ≠ 13 ∧ char ≠ 10) ∧
    char ≠ colon ∧ isBlank char = false := by decide

theorem valueText_char {value : Bytes} (present : value ≠ []) :
    ∀ char ∈ valueText value, (char ≠ 0 ∧ char ≠ 13 ∧ char ≠ 10) ∧ char ≠ colon := by
  obtain ⟨body, pads, line, same⟩ := valueText_line present
  intro char member
  rw [same] at member
  rcases List.mem_append.1 member with member | member
  · have plain := table_plain char (line.table char member)
    exact ⟨plain.1, plain.2.1⟩
  · rw [line.padding char member]
    decide

theorem valueText_short {value : Bytes} (present : value ≠ []) :
    (valueText value).length ≤ 2 * value.length + 2 := by
  obtain ⟨body, pads, line, same⟩ := valueText_line present
  rw [same]
  exact line.short

theorem hexText_char (value : Nat) :
    ∀ char ∈ hexText value, (char ≠ 0 ∧ char ≠ 13 ∧ char ≠ 10) ∧ char ≠ colon := by
  have digits : ∀ digit < 16, ((if digit < 10 then 48 + digit else 87 + digit).toUInt8 ≠ 0 ∧
      (if digit < 10 then 48 + digit else 87 + digit).toUInt8 ≠ 13 ∧
      (if digit < 10 then 48 + digit else 87 + digit).toUInt8 ≠ 10) ∧
      (if digit < 10 then 48 + digit else 87 + digit).toUInt8 ≠ colon := by decide
  intro char member
  rcases List.mem_append.1 member with member | member
  · rw [List.eq_of_mem_replicate member]
    decide
  · obtain ⟨digit, written, rfl⟩ := List.mem_map.1 member
    exact digits digit (Nat.digits_lt_base (by decide) (List.mem_reverse.1 written))

/-! # Fields of a header -/

section

variable {name other before tail : Bytes}

theorem not_suffix_append (apart : ¬ (other <:+ name ∨ name <:+ other)) (front : Bytes) :
    ¬ other <:+ front ++ name := by
  intro ends
  exact apart (List.suffix_or_suffix_of_suffix ends (List.suffix_append front name))

theorem clear_line (apart : ¬ (other <:+ name ∨ name <:+ other)) (unmarked : colon ∉ name)
    (rest : colon ∉ tail) : Clear colon other before (name ++ colon :: tail) := by
  refine (clear_of_not_mem unmarked).append ?_
  rw [← List.singleton_append]
  exact (clear_mark (not_suffix_append apart before)).append (clear_of_not_mem rest)

theorem clear_field (apart : ¬ (other <:+ name ∨ name <:+ other)) (unmarked : colon ∉ name)
    {value : Bytes} (present : value ≠ []) : Clear colon other before (field name value ++ crlf) := by
  have shape : field name value ++ crlf = name ++ colon :: (ascii " " ++ valueText value ++ crlf) := by
    simp [field, ascii, colon]
  rw [shape]
  refine clear_line apart unmarked ?_
  intro member
  rcases List.mem_append.1 member with member | member
  · rcases List.mem_append.1 member with member | member
    · exact absurd member (by decide)
    · exact (valueText_char present colon member).2 rfl
  · exact absurd member (by decide)

theorem unbordered_names : ∀ name ∈ fieldNames, Unbordered name ∧ name ≠ [] ∧ colon ∉ name := by
  have borders : ∀ name ∈ fieldNames, ∀ place < 10, 0 < place → place < name.length →
      ¬ name.drop place <+: name := by decide
  have short : ∀ name ∈ fieldNames, name.length < 10 ∧ name ≠ [] ∧ colon ∉ name := by decide
  intro name member
  refine ⟨fun place positive inside => ?_, (short name member).2⟩
  have bound := (short name member).1
  exact borders name member place (by omega) positive inside

theorem block_present {size : Nat} (value : Block size) (positive : 0 < size) : value.val ≠ [] := by
  intro empty
  have length := value.property
  rw [empty, List.length_nil] at length
  omega

theorem getAuthValue_found {size : Nat} (member : name ∈ fieldNames) (value : Block size)
    (positive : 0 < size) {front : Bytes} (clear : Clear colon name [] front) (rest : Bytes) :
    getAuthValue (appendAuthValue front name value.val ++ rest) name size = some (some value) := by
  have present := block_present value positive
  obtain ⟨unbordered, nonempty, unmarked⟩ := unbordered_names name member
  obtain ⟨body, pads, line, same⟩ := valueText_line present
  have shape : appendAuthValue front name value.val ++ rest =
      front ++ name ++ colon :: (32 :: (body ++ (pads ++ (crlf ++ rest)))) := by
    simp [appendAuthValue, field, ascii, colon, same]
  have found : findMarked colon name
      (front ++ name ++ colon :: (32 :: (body ++ (pads ++ (crlf ++ rest))))) =
        some (32 :: (body ++ (pads ++ (crlf ++ rest)))) :=
    findMarked_found (clear.append (clear_of_not_mem unmarked)) unbordered nonempty unmarked
  have blank : isBlank 32 = true := by decide
  have stop : (pads ++ (crlf ++ rest)).takeWhile isBase64 = [] := by
    cases pads with
    | nil => rfl
    | cons head pads =>
      rw [line.padding head List.mem_cons_self]
      rfl
  have start : (body ++ (pads ++ (crlf ++ rest))).dropWhile isBlank =
      body ++ (pads ++ (crlf ++ rest)) := by
    cases body with
    | nil =>
      cases pads with
      | nil => rfl
      | cons head pads =>
        rw [line.padding head List.mem_cons_self]
        rfl
    | cons head body =>
      have visible := (table_plain head (line.table head List.mem_cons_self)).2.2
      rw [List.cons_append, List.dropWhile_cons_of_neg (by simp [visible])]
  have taken : (body ++ (pads ++ (crlf ++ rest))).takeWhile isBase64 = body := by
    have all : ∀ char ∈ body, isBase64 char = true := by
      intro char member
      exact List.contains_iff_mem.2 (line.table char member)
    rw [List.takeWhile_append_of_pos all, stop, List.append_nil]
  rw [getAuthValue, shape, found]
  simp only [List.dropWhile_cons_of_pos blank, start, taken, line.decoded, value.property]
  rfl

theorem getAuthValue_absent {hdr : Bytes} (member : name ∈ fieldNames)
    (clear : Clear colon name [] hdr) (size : Nat) : getAuthValue hdr name size = some none := by
  rw [getAuthValue, findMarked_none clear (unbordered_names name member).2.1]

end

/-- A group whose name no line of a header is mistaken for. -/
structure Nameable (group : CString) : Prop where
  plain : ∀ char ∈ group.val, 32 ≤ char ∧ char ≠ 127
  clear : ∀ name ∈ fieldNames, ¬ name ++ [colon] <:+: group.val

theorem clear_group {group : CString} (nameable : Nameable group) {name : Bytes}
    (member : name ∈ fieldNames) : Clear colon name (ascii "GET /gets/") group.val := by
  have slashless : slash ∉ name := by
    have all : ∀ name ∈ fieldNames, slash ∉ name := by decide
    exact all name member
  intro front back split ends
  obtain ⟨before, same⟩ := ends
  rcases List.append_eq_append_iff.1 same with ⟨start, early, rfl⟩ | ⟨rest, -, within⟩
  · rcases start.eq_nil_or_concat with rfl | ⟨start, last, rfl⟩
    · refine nameable.clear _ member ⟨[], back, ?_⟩
      rw [split]
      simp
    · -- the name would have to hold the slash
      have ended : ascii "GET /gets/" = ascii "GET /gets" ++ [slash] := rfl
      rw [ended, List.concat_eq_append, ← List.append_assoc] at early
      have same := (List.append_inj' early rfl).2
      rw [List.singleton_inj] at same
      exact slashless (by simp [same])
  · refine nameable.clear name member ⟨rest, back, ?_⟩
    rw [split, within]
    simp

theorem clear_getsRequest {group : CString} (nameable : Nameable group) (ref : Nat) {name : Bytes}
    (member : name ∈ fieldNames) : Clear colon name [] (getsRequest group ref) := by
  have apart : ∀ name ∈ fieldNames, ¬ (name <:+ ascii "Connection" ∨ ascii "Connection" <:+ name) := by
    decide
  have shape : getsRequest group ref = ascii "GET /gets/" ++ (group.val ++
      ((ascii "/" ++ hexText ref ++ ascii " HTTP/1.0" ++ crlf) ++
        (ascii "Connection" ++ colon :: (ascii " Keep-Alive" ++ crlf)))) := by
    simp only [getsRequest, getsLine, List.append_assoc]
    rfl
  rw [shape]
  refine (clear_of_not_mem (by decide)).append ?_
  refine (clear_group nameable member).append ?_
  refine (clear_of_not_mem ?_).append ?_
  · intro marked
    rcases List.mem_append.1 marked with marked | marked
    · rcases List.mem_append.1 marked with marked | marked
      · rcases List.mem_append.1 marked with marked | marked
        · exact absurd marked (by decide)
        · exact (hexText_char ref colon marked).2 rfl
      · exact absurd marked (by decide)
    · exact absurd marked (by decide)
  · exact clear_line (apart name member) (by decide) (by decide)

end Trut
