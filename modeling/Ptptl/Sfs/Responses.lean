import Ptptl.Library.Records
import Ptptl.Sfs.PageBounds

set_option autoImplicit false

/-! # What a client reads out of a page -/

namespace Sfs

open Ptp Ptp.Collection Bounded

structure Response where
  id : Nat
  name : Bytes
  url : Bytes
deriving DecidableEq

def href : Bytes := ascii "HREF=\""

/-- `InsertResponse` from `start` with the count of the responses so far: the response, the new
count and `*end`, or -1. -/
def insertResponse : Nat × Bytes → Option (Option (Response × Nat × Bytes))
  | (count, start) =>
    match strstr start href with
    | none => some none
    | some position =>
      let start := start.drop (position + href.length)
      let url := start.takeWhile (· ≠ 34)
      if 34 ∉ start then some none
      -- e + 2 is past the NUL
      else if start.length < url.length + 2 then none
      else
        let start := start.drop (url.length + 2)
        let name := start.takeWhile (· ≠ 60)
        if 60 ∉ start then some none
        else some (some (⟨count + 1, name, url⟩, count + 1, start.drop (name.length + 1)))

/-- `Search` from the reply of the server on: what it returns and the responses. -/
def search (evp : Cipher) (key : SessionKey) (buffer : Bytes) (fuel : Nat) :
    Option (Int × List Response) := do
  let (size, plain) ← Key.decrypt evp key (some buffer) buffer.length true true true
  if size ≤ 0 then return (-1, [])
  let resps ← Records.readAll insertResponse fuel (0, cString plain)
  return (0, resps)

def listed (ip port : Nat) (key : Key) (entries : List Entry) : List Response :=
  entries.zipIdx.map fun entry =>
    ⟨entry.2 + 1, entry.1.getName.val, fileUrl ip port key entry.1⟩

/-- What stands in front of a link: the start of the page, or the end of the link before. -/
def Between (text : Bytes) : Prop := text = ascii "<HTML>\n" ∨ text = ascii "/A><BR>\n"

variable {evp : Cipher} {collect : Collection} {ip port : Nat} {key : Key} {pattern : Bytes}
  {iv : Iv} {text : Bytes}

theorem Between.href (between : Between text) :
    strstr (text ++ ascii "<A HREF=\"") href = some (text.length + 3) ∧
      strstr (text ++ ascii "</HTML>\n") href = none := by
  rcases between with rfl | rfl
  · exact ⟨by decide, by decide⟩
  · exact ⟨by decide, by decide⟩

theorem fileUrl_plain {char : Byte} (digit : isxdigit char = false)
    (format : char ∉ ascii "http://.:") (ip port : Nat) (key : Key) (entry : Entry) :
    char ∉ fileUrl ip port key entry := by
  have hex (value : Nat) : char ∉ hexPadded value := fun member => by
    simp [hexPadded_isxdigit value char member] at digit
  have decimals (value : Nat) : char ∉ decimal value := fun member => by
    have decimal := decimal_isdigit value char member
    simp [isxdigit, hexDigit, decimal] at digit
  have scheme : char ∉ ascii "http://" := fun member =>
    format (List.mem_append_left (ascii ".:") member)
  have dot : char ∉ ascii "." := fun member =>
    format (List.mem_append_right (ascii "http://") (List.mem_append_left (ascii ":") member))
  have colon : char ∉ ascii ":" := fun member =>
    format (List.mem_append_right (ascii "http://.") member)
  have other : char ≠ slash := by
    rintro rfl
    exact format (by decide)
  simp [fileUrl, hostText, filePath, decimals, hex, scheme, dot, colon, other]

theorem pageText_clean (ip port : Nat) (key : Key) (entries : List Entry) :
    0 ∉ pageText ip port key entries := by
  have link (entry : Entry) : 0 ∉ fileLink ip port key entry := by
    have url := fileUrl_plain (by decide : isxdigit 0 = false) (by decide) ip port key entry
    have start : 0 ∉ ascii "<A HREF=\"" := by decide
    have quote : 0 ∉ ascii "\">" := by decide
    have last : 0 ∉ ascii "</A><BR>\n" := by decide
    simp [fileLink, url, start, quote, last, entry.getName.property]
  have first : 0 ∉ ascii "<HTML>\n" := by decide
  have last : 0 ∉ ascii "</HTML>\n" := by decide
  simp [pageText, first, last, link]

theorem insertResponse_link (between : Between text) (count : Nat) (entry : Entry) (rest : Bytes) :
    insertResponse (count, text ++ (fileLink ip port key entry ++ rest)) =
      let name := (entry.getName.val ++ (ascii "</A><BR>\n" ++ rest)).takeWhile (· ≠ 60)
      some (some (⟨count + 1, name, fileUrl ip port key entry⟩, count + 1,
        (entry.getName.val ++ (ascii "</A><BR>\n" ++ rest)).drop (name.length + 1))) := by
  generalize behind : entry.getName.val ++ (ascii "</A><BR>\n" ++ rest) = back
  have split : text ++ (fileLink ip port key entry ++ rest) = (text ++ ascii "<A HREF=\"") ++
      (fileUrl ip port key entry ++ 34 :: 62 :: back) := by
    have quote : ascii "\">" = [34, 62] := rfl
    rw [← behind]
    simp [fileLink, quote]
  have unquoted := fileUrl_plain (by decide : isxdigit 34 = false) (by decide) ip port key entry
  generalize fileUrl ip port key entry = url at *
  have found : strstr (text ++ (fileLink ip port key entry ++ rest)) href =
      some (text.length + 3) := by
    rw [split]
    exact Search.find_append between.href.1 _
  have start : (text ++ (fileLink ip port key entry ++ rest)).drop
      (text.length + 3 + href.length) = url ++ 34 :: 62 :: back := by
    have length : (text ++ ascii "<A HREF=\"").length = text.length + 3 + href.length := by
      rw [List.length_append]
      rfl
    rw [split]
    exact List.drop_left' length
  have quoted : (url ++ 34 :: 62 :: back).takeWhile (· ≠ 34) = url := by
    rw [List.takeWhile_append_of_pos fun char member => decide_eq_true (ne_of_mem_of_not_mem
      member unquoted)]
    simp
  have quote : 34 ∈ url ++ 34 :: 62 :: back := by simp
  have inside : ¬ (url ++ 34 :: 62 :: back).length < url.length + 2 := by
    rw [List.length_append, List.length_cons, List.length_cons]
    omega
  have name : (url ++ 34 :: 62 :: back).drop (url.length + 2) = back := by
    rw [← List.drop_drop, List.drop_left]
    rfl
  have tag : 60 ∈ back := by
    rw [← behind]
    exact List.mem_append_right _ (List.mem_append_left _ (by decide))
  simp only [insertResponse, found, start, quoted, quote, not_true, if_false, inside, name, tag]

/-- The state of the loop before the links of some entries. -/
def Before (ip port : Nat) (key : Key) (entries : List (Entry × Nat)) (state : Nat × Bytes) :
    Prop :=
  entries = (entries.map Prod.fst).zipIdx state.1 ∧ ∃ text, Between text ∧
    state.2 = text ++ ((entries.map Prod.fst).flatMap (fileLink ip port key) ++ ascii "</HTML>\n")

theorem insertResponse_reads (ip port : Nat) (key : Key) :
    Records.Reads insertResponse
      (fun entry : Entry × Nat => ⟨entry.2 + 1, entry.1.getName.val, fileUrl ip port key entry.1⟩)
      (fun entry => 60 ∉ entry.1.getName.val) (Before ip port key) where
  stops := by
    rintro ⟨count, start⟩ ⟨_, text, between, same⟩
    simp only [List.map_nil, List.flatMap_nil, List.nil_append] at same
    subst same
    simp only [insertResponse, between.href.2]
  reads := by
    rintro ⟨entry, index⟩ entries ⟨count, start⟩ ⟨numbered, text, between, same⟩ right
    simp only [List.map_cons, List.zipIdx_cons, List.cons.injEq, Prod.mk.injEq, true_and,
      List.flatMap_cons, List.append_assoc] at numbered same
    obtain ⟨rfl, numbered⟩ := numbered
    subst same
    have plain : (entry.getName.val ++ (ascii "</A><BR>\n" ++ ((entries.map Prod.fst).flatMap
        (fileLink ip port key) ++ ascii "</HTML>\n"))).takeWhile (· ≠ 60) = entry.getName.val := by
      rw [List.takeWhile_append_of_pos fun char member => decide_eq_true (ne_of_mem_of_not_mem
        member right)]
      simp [ascii]
    refine ⟨_, by rw [insertResponse_link between, plain], numbered, ascii "/A><BR>\n", .inr rfl, ?_⟩
    rw [← List.drop_drop, List.drop_left]
    rfl
  misses := by
    rintro ⟨entry, index⟩ entries ⟨count, start⟩ ⟨numbered, text, between, same⟩ wrong rest read
    simp only [List.map_cons, List.flatMap_cons, List.append_assoc] at same
    subst same
    rw [insertResponse_link between] at read
    simp only [Option.some.injEq, Prod.mk.injEq, Response.mk.injEq] at read
    -- the name that is read has no '<'
    have clean : 60 ∉ entry.getName.val := by
      rw [← read.1.2.1]
      intro member
      have other := List.all_eq_true.1 List.all_takeWhile 60 member
      simp at other
    exact wrong (by simpa using clean)

theorem readAll_page (ip port : Nat) (key : Key) (entries : List Entry) :
    (∃ fuel, Records.readAll insertResponse fuel (0, pageText ip port key entries) =
      some (listed ip port key entries)) ↔ ∀ entry ∈ entries, 60 ∉ entry.getName.val := by
  have firsts : entries.zipIdx.map Prod.fst = entries := List.zipIdx_map_fst 0 entries
  have before : Before ip port key entries.zipIdx (0, pageText ip port key entries) := by
    refine ⟨by rw [firsts], ascii "<HTML>\n", .inl rfl, ?_⟩
    rw [firsts, pageText, List.append_assoc]
  rw [listed, (insertResponse_reads ip port key).iff before]
  calc (∀ entry ∈ entries.zipIdx, 60 ∉ entry.1.getName.val)
      ↔ ∀ entry ∈ entries.zipIdx.map Prod.fst, 60 ∉ entry.getName.val :=
        (List.forall_mem_map (f := Prod.fst)
          (P := fun entry : Entry => 60 ∉ entry.getName.val)).symm
    _ ↔ ∀ entry ∈ entries, 60 ∉ entry.getName.val := by rw [firsts]

theorem search_page {cipher : Bytes}
    (fits : printPage evp collect ip port key pattern iv = .ok cipher) (fuel : Nat) :
    search evp key.shared.key cipher fuel = (Records.readAll insertResponse fuel
      (0, pageText ip port key (collect.findPat pattern))).map (0, ·) := by
  obtain ⟨small, rfl⟩ := printPage_ok.1 fits
  have length := pageText_length ip port key (collect.findPat pattern)
  have some_ : pageText ip port key (collect.findPat pattern) ≠ [] :=
    List.ne_nil_of_length_pos (by omega)
  have overhead : Key.overhead true true = 28 := rfl
  have decrypted := Key.decrypt_cipherText evp key.shared.key true true iv some_
    (by unfold pageSize at small; unfold CInt.intMax; rw [overhead]; omega)
  have positive : ¬ ((pageText ip port key (collect.findPat pattern)).length : Int) ≤ 0 := by omega
  have text := cString_eq (pageText_clean ip port key (collect.findPat pattern))
  simp only [search, decrypted, Option.bind_eq_bind, Option.bind_some, positive, if_false, text,
    Option.pure_def]
  cases Records.readAll insertResponse fuel _ <;> rfl

theorem search_listed_iff {cipher : Bytes}
    (fits : printPage evp collect ip port key pattern iv = .ok cipher) :
    (∃ fuel, search evp key.shared.key cipher fuel =
        some (0, listed ip port key (collect.findPat pattern))) ↔
      ∀ entry ∈ collect.findPat pattern, 60 ∉ entry.getName.val := by
  simp only [search_page fits, Option.map_eq_some_iff, Prod.mk.injEq, true_and, exists_eq_right]
  exact readAll_page ip port key (collect.findPat pattern)

def sharing (name : Bytes) : Collection where
  entries := [{ id := 1, content := .file (CString.ofBuffer name) 1 }]

def shareKey : Key := { id := Block.zero _, ip := 0 }

def songName : Bytes := ascii "HREF=\"a\".c"

theorem search_listed_quoted : ∃ cipher,
    printPage Key.zeroCipher (sharing songName) 2130706433 8080 shareKey [42] (Block.zero _) =
        .ok cipher ∧
      ((∃ fuel, search Key.zeroCipher shareKey.shared.key cipher fuel = some (0,
          listed 2130706433 8080 shareKey ((sharing songName).findPat [42]))) ↔
        ∀ entry ∈ (sharing songName).findPat [42], 60 ∉ entry.getName.val) :=
  have fits : printPage Key.zeroCipher (sharing songName) 2130706433 8080 shareKey [42]
      (Block.zero _) = .ok _ := printPage_ok.2 ⟨by decide +kernel, rfl⟩
  ⟨_, fits, search_listed_iff fits⟩

theorem search_listed_cut : ∃ cipher,
    printPage Key.zeroCipher (sharing (ascii "a<b")) 2130706433 8080 shareKey [42] (Block.zero _) =
        .ok cipher ∧
      (∃ url, search Key.zeroCipher shareKey.shared.key cipher 2 =
        some (0, [⟨1, ascii "a", url⟩])) ∧
      ¬ ∃ fuel, search Key.zeroCipher shareKey.shared.key cipher fuel = some (0,
        listed 2130706433 8080 shareKey ((sharing (ascii "a<b")).findPat [42])) := by
  have fits : printPage Key.zeroCipher (sharing (ascii "a<b")) 2130706433 8080 shareKey [42]
      (Block.zero _) = .ok _ := printPage_ok.2 ⟨by decide +kernel, rfl⟩
  refine ⟨_, fits, ⟨ascii "http://127.0.0.1:8080/00000000/00000001", ?_⟩, ?_⟩
  next =>
    rw [search_page fits]
    decide +kernel
  next =>
    simp only [search_page fits, Option.map_eq_some_iff, Prod.mk.injEq, true_and, exists_eq_right]
    rw [readAll_page]
    decide +kernel

end Sfs
