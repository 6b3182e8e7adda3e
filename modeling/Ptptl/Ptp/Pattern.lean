import Ptptl.Library.Glob
import Ptptl.Ptp.Collection

set_option autoImplicit false

/-! # What `CmpPat` compares -/

namespace Ptp

namespace Collection

open Glob

def tokens : Bytes → List (Token Byte)
  -- a backslash at the end of the pattern is dropped
  | [] => []
  | char :: pat =>
    if char = 63 then .any :: tokens pat
    else if char = 42 then .star :: tokens pat
    else if char = 92 then
      match pat with
      | [] => []
      | quoted :: pat => .letter quoted :: tokens pat
    else .letter char :: tokens pat

def dangling : Bytes → Bool
  | [] => false
  | char :: pat =>
    if char = 92 then
      match pat with
      | [] => true
      | _ :: pat => dangling pat
    else dangling pat

/-- What the glob of a pattern matches, when nothing dangles. -/
def Matches (pat : Bytes) (glob : List (Token Byte)) (str : Bytes) : Prop :=
  dangling pat = false ∧ str ∈ language toupper glob

/-- Both functions compare with the glob, and `cmpStar` with a `'*'` in front of it. -/
structure Correct (pat : Bytes) : Prop where
  here : ∀ str, cmpPat pat str = true ↔ Matches pat (tokens pat) str
  later : ∀ str, cmpStar pat str = true ↔ Matches pat (.star :: tokens pat) str

variable {pat : Bytes} {char : Byte}

theorem Correct.nil : Correct [] where
  here := by simp [cmpPat, Matches, dangling, tokens]
  later := by
    intro str
    have empty : str ∈ language toupper [.star] := mem_star.2 ⟨[], List.nil_suffix, rfl⟩
    simp [cmpStar, Matches, dangling, tokens, empty]

theorem Correct.any (correct : Correct pat) : Correct (63 :: pat) where
  here := by
    intro str
    rw [cmpPat.eq_def, Matches, dangling.eq_def, tokens.eq_def]
    cases str with
    | nil => simp
    | cons first rest => simpa [Matches] using correct.here rest
  later := by
    intro str
    rw [cmpStar.eq_def, Matches, dangling.eq_def, tokens.eq_def]
    cases str with
    | nil => simp [star_any]
    | cons first rest => simpa [Matches, star_any] using correct.later rest

theorem Correct.star (correct : Correct pat) : Correct (42 :: pat) where
  here := by
    intro str
    rw [cmpPat.eq_def, Matches, dangling.eq_def, tokens.eq_def]
    simpa [Matches] using correct.later str
  later := by
    intro str
    rw [cmpStar.eq_def, Matches, dangling.eq_def, tokens.eq_def]
    simpa [Matches, star_star] using correct.later str

theorem Correct.cmpChar (correct : Correct pat) (char : Byte) (str : Bytes) :
    Collection.cmpChar char (cmpPat pat) str = true ↔
      Matches pat (.letter char :: tokens pat) str := by
  cases str with
  | nil => simp [Collection.cmpChar, Matches]
  | cons first rest =>
    simp only [Collection.cmpChar, Bool.and_eq_true, decide_eq_true_eq, correct.here, Matches,
      cons_mem_letter]
    exact and_left_comm

theorem Correct.tails (correct : Correct pat) (char : Byte) (str : Bytes) :
    str.tails.any (Collection.cmpChar char (cmpPat pat)) = true ↔
      Matches pat (.star :: .letter char :: tokens pat) str := by
  simp only [List.any_eq_true, List.mem_tails, correct.cmpChar, Matches, mem_star]
  constructor
  next =>
    rintro ⟨rest, suffix, closed, member⟩
    exact ⟨closed, rest, suffix, member⟩
  next =>
    rintro ⟨closed, rest, suffix, member⟩
    exact ⟨rest, suffix, closed, member⟩

theorem Correct.dangling : Correct [92] where
  here := by simp [cmpPat, Matches, Collection.dangling]
  later := by simp [cmpStar, Matches, Collection.dangling]

theorem Correct.quoted (correct : Correct pat) (quoted : Byte) : Correct (92 :: quoted :: pat) where
  here := by
    intro str
    simpa [cmpPat, Matches, Collection.dangling, tokens] using correct.cmpChar quoted str
  later := by
    intro str
    simpa [cmpStar, Matches, Collection.dangling, tokens] using correct.tails quoted str

def Plain (char : Byte) : Prop := char ≠ 63 ∧ char ≠ 42 ∧ char ≠ 92

instance (char : Byte) : Decidable (Plain char) := inferInstanceAs (Decidable (_ ∧ _))

theorem tokens_plain (plain : Plain char) (pat : Bytes) :
    tokens (char :: pat) = .letter char :: tokens pat := by
  rw [tokens.eq_def]
  simp [plain.1, plain.2.1, plain.2.2]

theorem dangling_plain (other : char ≠ 92) (pat : Bytes) :
    dangling (char :: pat) = dangling pat := by
  rw [dangling.eq_def]
  simp [other]

theorem Correct.plain (correct : Correct pat) (plain : Plain char) : Correct (char :: pat) where
  here := by
    intro str
    rw [cmpPat.eq_def, Matches, dangling_plain plain.2.2, tokens_plain plain]
    simpa [Matches, plain.1, plain.2.1, plain.2.2] using correct.cmpChar char str
  later := by
    intro str
    rw [cmpStar.eq_def, Matches, dangling_plain plain.2.2, tokens_plain plain]
    simpa [Matches, plain.1, plain.2.1, plain.2.2] using correct.tails char str

theorem cmpPat_correct : ∀ pat, Correct pat
  | [] => .nil
  | char :: pat => by
    have correct := cmpPat_correct pat
    by_cases any : char = 63
    · exact any ▸ correct.any
    by_cases several : char = 42
    · exact several ▸ correct.star
    by_cases quote : char = 92
    next =>
      subst quote
      cases pat with
      | nil => exact .dangling
      | cons quoted pat => exact (cmpPat_correct pat).quoted quoted
    next => exact correct.plain ⟨any, several, quote⟩
termination_by pat => pat.length

theorem word_append {word : Bytes} (plain : ∀ char ∈ word, Plain char) (pat : Bytes) :
    tokens (word ++ pat) = word.map Token.letter ++ tokens pat ∧
      dangling (word ++ pat) = dangling pat := by
  induction word with
  | nil => exact ⟨rfl, rfl⟩
  | cons char word ih =>
    obtain ⟨here, closed⟩ := ih fun other member => plain other (List.mem_cons_of_mem _ member)
    have first := plain char List.mem_cons_self
    rw [List.cons_append, tokens_plain first, dangling_plain first.2.2, here, closed]
    exact ⟨rfl, rfl⟩

theorem append_word {word : Bytes} (plain : ∀ char ∈ word, Plain char) (present : word ≠ []) :
    ∀ pat, tokens (pat ++ word) = tokens pat ++ word.map Token.letter ∧
      dangling (pat ++ word) = false
  | [] => by simpa [tokens, dangling] using word_append plain []
  | char :: pat => by
    obtain ⟨here, closed⟩ := append_word plain present pat
    by_cases quote : char = 92
    next =>
      subst quote
      cases pat with
      | nil =>
        obtain ⟨first, others, rfl⟩ := List.exists_cons_of_ne_nil present
        have rest := word_append (fun char member => plain char (List.mem_cons_of_mem _ member)) []
        simpa [tokens, dangling] using rest
      | cons quoted pat =>
        obtain ⟨here, closed⟩ := append_word plain present pat
        simp [tokens, dangling, here, closed]
    next =>
      rw [List.cons_append, dangling_plain quote, tokens.eq_def, tokens.eq_def (char :: pat)]
      simp only [quote, if_false, here, closed, and_true]
      split_ifs <;> rfl
termination_by pat => pat.length

end Collection

end Ptp
