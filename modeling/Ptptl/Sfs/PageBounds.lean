import Mathlib.Algebra.GroupWithZero.Nat
import Ptptl.Library.Bounded
import Ptptl.Library.Runs
import Ptptl.Sfs.Page

set_option autoImplicit false

/-! # The buffer of a page -/

namespace Sfs

open Ptp Ptp.Collection CInt Bounded

section

variable (evp : Cipher) (collect : Collection) (ip port : Nat) (key : Key)

/-- The prints of `HandleSearch` into its buffer. -/
def printText (entries : List Entry) : Except Bounded.Fault Bytes := do
  let text ← print pageSize [] (ascii "<HTML>\n")
  let text ← entries.foldlM
    (fun text entry => print pageSize text (fileLink ip port key entry)) text
  print pageSize text (ascii "</HTML>\n")

def printPage (pattern : Bytes) (iv : Iv) : Except Bounded.Fault Bytes := do
  let text ← printText ip port key (collect.findPat pattern)
  -- strlen: nothing that is printed has a NUL in it
  let (_, cipher) ← orOverflow
    (Key.encrypt evp key.shared.key (some text) text.length true true true iv)
  access pageSize 0 cipher.length
  return cipher

def linkSize (entry : Entry) : Nat :=
  33 + (decimal ((ip >>> 24) &&& 0xff)).length + (decimal ((ip >>> 16) &&& 0xff)).length +
    (decimal ((ip >>> 8) &&& 0xff)).length + (decimal (ip &&& 0xff)).length +
    (decimal port).length + (hexPadded key.shared.keyid).length +
    (hexPadded (entry.id ^^^ key.shadow)).length + entry.getName.val.length

end

variable {evp : Cipher} {collect : Collection} {ip port : Nat} {key : Key} {pattern : Bytes}
  {iv : Iv}

theorem fileLink_length (entry : Entry) :
    (fileLink ip port key entry).length = linkSize ip port key entry := by
  have start : (ascii "<A HREF=\"").length = 9 := rfl
  have scheme : (ascii "http://").length = 7 := rfl
  have quote : (ascii "\">").length = 2 := rfl
  have last : (ascii "</A><BR>\n").length = 9 := rfl
  have dot : (ascii ".").length = 1 := rfl
  have colon : (ascii ":").length = 1 := rfl
  simp only [fileLink, fileUrl, hostText, filePath, linkSize, List.length_append,
    List.length_cons, start, scheme, quote, last, dot, colon]
  omega

theorem pageText_length (ip port : Nat) (key : Key) (entries : List Entry) :
    (pageText ip port key entries).length = 15 + (entries.map (linkSize ip port key)).sum := by
  have first : (ascii "<HTML>\n").length = 7 := rfl
  have last : (ascii "</HTML>\n").length = 8 := rfl
  have links : (fun entry => (fileLink ip port key entry).length) = linkSize ip port key :=
    funext fileLink_length
  rw [pageText, List.length_append, List.length_append, List.length_flatMap, links, first, last]
  omega

theorem printText_ok {found : List Entry} {text : Bytes} :
    printText ip port key found = .ok text ↔
      (pageText ip port key found).length < pageSize ∧ text = pageText ip port key found := by
  have first : print pageSize [] (ascii "<HTML>\n") = .ok (ascii "<HTML>\n") :=
    print_ok.2 ⟨by decide, rfl⟩
  have started : (ascii "<HTML>\n").length < pageSize := by decide
  simp only [printText, first, Runs.bind_ok, Except.ok.injEq, exists_eq_left',
    foldlM_print_ok _ found started, print_ok]
  constructor
  · rintro ⟨_, ⟨_, rfl⟩, fits, rfl⟩
    exact ⟨fits, rfl⟩
  · rintro ⟨fits, rfl⟩
    refine ⟨_, ⟨?_, rfl⟩, fits, rfl⟩
    rw [pageText, List.length_append] at fits
    omega

theorem printPage_ok {cipher : Bytes} :
    printPage evp collect ip port key pattern iv = .ok cipher ↔
      (pageText ip port key (collect.findPat pattern)).length + 28 ≤ pageSize ∧
        cipher = Key.cipherText evp key.shared.key true true iv
          (pageText ip port key (collect.findPat pattern)) := by
  have length := pageText_length ip port key (collect.findPat pattern)
  have printed := @printText_ok ip port key (collect.findPat pattern)
  generalize pageText ip port key (collect.findPat pattern) = text at *
  have total := Key.cipherText_length evp key.shared.key true true iv text
  have overhead : Key.overhead true true = 28 := rfl
  by_cases small : text.length < pageSize
  next =>
    have encrypted := Key.encrypt_correct evp key.shared.key true true iv
      (List.ne_nil_of_length_pos (by omega : 0 < text.length))
      (by unfold pageSize at small; unfold intMax; omega)
    simp only [printPage, printed.2 ⟨small, rfl⟩, encrypted, orOverflow_some, bind, Except.bind,
      total, overhead]
    by_cases fits : text.length + 28 ≤ pageSize
    next =>
      have inside : access pageSize 0 ((text.length + 28 : Nat) : Int) = .ok () :=
        access_front (by omega) (by omega)
      simp only [inside, pure, Except.pure, Except.ok.injEq, fits, true_and]
      exact eq_comm
    next =>
      have outside : access pageSize 0 ((text.length + 28 : Nat) : Int) = .error .outside :=
        access_outside (by omega) (by omega)
      simp only [outside, fits, false_and, reduceCtorEq]
  next =>
    have large : ¬ text.length + 28 ≤ pageSize := by omega
    simp only [large, false_and, iff_false]
    intro made
    obtain ⟨_, text, _⟩ := Runs.bind_ok.1 made
    exact small (printed.1 text).1

theorem searchPage_printPage {pki : Pki} {env : Env pki} {server : Server pki} {data : Bytes}
    {page : Page} (made : searchPage env ip port server data = some (some page)) (iv : Iv) :
    ∃ pattern, page.entries = env.collect.findPat pattern ∧
      printPage env.cipher env.collect ip port page.key pattern iv =
        .ok (Key.cipherText env.cipher page.key.shared.key true true iv page.text) := by
  unfold searchPage at made
  cases found : findKey server.keys (get32 data) with
  | none => simp [found] at made
  | some key =>
    simp only [found, Option.bind_eq_bind, Option.bind_eq_some_iff] at made
    obtain ⟨⟨size, plain⟩, _, made⟩ := made
    simp only at made
    split at made
    next => simp at made
    next =>
      split at made
      next => simp at made
      next fits =>
        simp only [Option.some.injEq] at made
        subst made
        exact ⟨cString plain, rfl, printPage_ok.2 ⟨Nat.not_lt.1 fits, rfl⟩⟩

theorem printPage_inside_iff (evp : Cipher) (collect : Collection) (ip port : Nat) (key : Key)
    (pattern : Bytes) (iv : Iv) :
    (∃ cipher, printPage evp collect ip port key pattern iv = .ok cipher) ↔
      15 + ((collect.findPat pattern).map (linkSize ip port key)).sum + 28 ≤ pageSize := by
  simp only [printPage_ok, exists_and_left, exists_eq, and_true, pageText_length]

def letters : Collection where
  entries := (List.range 40).map
    fun id => { id := id, content := .file (CString.ofBuffer [(64 + id).toUInt8]) 1 }

theorem printPage_overflow : ¬ ∀ (evp : Cipher) (collect : Collection) (ip port : Nat) (key : Key)
    (pattern : Bytes) (iv : Iv), ∃ cipher,
      printPage evp collect ip port key pattern iv = .ok cipher := by
  intro all
  obtain ⟨cipher, made⟩ := all Key.zeroCipher letters 2130706433 8080
    { id := Block.zero _, ip := 0 } [42] (Block.zero _)
  have fits := (printPage_ok.1 made).1
  have entries : letters.findPat [42] = letters.entries := by decide +kernel
  rw [pageText_length, entries] at fits
  have sum : (letters.entries.map
      (linkSize 2130706433 8080 { id := Block.zero _, ip := 0 })).sum = 2400 := by decide +kernel
  rw [sum] at fits
  exact absurd fits (by decide)

end Sfs
