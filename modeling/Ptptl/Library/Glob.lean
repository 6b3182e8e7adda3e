import Mathlib.Computability.Language

set_option autoImplicit false

/-!
# Glob patterns and their languages

Characters are compared by what `fold` makes of them.
-/

namespace Glob

inductive Token (α : Type) where
  | any
  | star
  | letter (char : α)
deriving DecidableEq

variable {α κ : Type} (fold : α → κ)

def Token.language : Token α → Language α
  | .any => {text | ∃ first, text = [first]}
  | .star => (Set.univ : Set (List α))
  | .letter char => {text | ∃ first, text = [first] ∧ fold first = fold char}

def language (glob : List (Token α)) : Language α := (glob.map (Token.language fold)).prod

variable {fold} {glob more : List (Token α)} {text : List α} {first char : α}

@[simp] theorem mem_nil : text ∈ language fold [] ↔ text = [] := Iff.rfl

theorem mem_cons {token : Token α} : text ∈ language fold (token :: glob) ↔
    ∃ front ∈ token.language fold, ∃ rest ∈ language fold glob, front ++ rest = text :=
  Language.mem_mul

theorem language_append : language fold (glob ++ more) = language fold glob * language fold more := by
  simp only [language, List.map_append, List.prod_append]

theorem mem_append : text ∈ language fold (glob ++ more) ↔
    ∃ front ∈ language fold glob, ∃ rest ∈ language fold more, front ++ rest = text := by
  rw [language_append, Language.mem_mul]

@[simp] theorem nil_mem_any : ¬ [] ∈ language fold (.any :: glob) := by
  rw [mem_cons]
  rintro ⟨_, ⟨first, rfl⟩, rest, _, whole⟩
  simp at whole

@[simp] theorem cons_mem_any : first :: text ∈ language fold (.any :: glob) ↔
    text ∈ language fold glob := by
  rw [mem_cons]
  constructor
  next =>
    rintro ⟨_, ⟨other, rfl⟩, rest, member, whole⟩
    obtain ⟨_, rfl⟩ := List.cons.inj whole
    exact member
  next =>
    intro member
    exact ⟨[first], ⟨first, rfl⟩, text, member, rfl⟩

@[simp] theorem nil_mem_letter : ¬ [] ∈ language fold (.letter char :: glob) := by
  rw [mem_cons]
  rintro ⟨_, ⟨first, rfl, _⟩, rest, _, whole⟩
  simp at whole

@[simp] theorem cons_mem_letter : first :: text ∈ language fold (.letter char :: glob) ↔
    fold first = fold char ∧ text ∈ language fold glob := by
  rw [mem_cons]
  constructor
  next =>
    rintro ⟨_, ⟨other, rfl, same⟩, rest, member, whole⟩
    obtain ⟨rfl, rfl⟩ := List.cons.inj whole
    exact ⟨same, member⟩
  next =>
    rintro ⟨same, member⟩
    exact ⟨[first], ⟨first, rfl, same⟩, text, member, rfl⟩

theorem mem_star : text ∈ language fold (.star :: glob) ↔
    ∃ rest, rest <:+ text ∧ rest ∈ language fold glob := by
  rw [mem_cons]
  constructor
  next =>
    rintro ⟨front, _, rest, member, whole⟩
    exact ⟨rest, ⟨front, whole⟩, member⟩
  next =>
    rintro ⟨rest, ⟨front, whole⟩, member⟩
    exact ⟨front, trivial, rest, member, whole⟩

theorem star_star : text ∈ language fold (.star :: .star :: glob) ↔
    text ∈ language fold (.star :: glob) := by
  simp only [mem_star]
  constructor
  next =>
    rintro ⟨middle, inside, rest, suffix, member⟩
    exact ⟨rest, suffix.trans inside, member⟩
  next =>
    rintro ⟨rest, suffix, member⟩
    exact ⟨text, List.suffix_rfl, rest, suffix, member⟩

theorem star_any : text ∈ language fold (.star :: .any :: glob) ↔
    text ∈ language fold (.any :: .star :: glob) := by
  cases text with
  | nil =>
    simp only [mem_star, List.suffix_nil, nil_mem_any, iff_false, not_exists, not_and]
    rintro rest rfl
    exact nil_mem_any
  | cons first text =>
    rw [cons_mem_any, mem_star, mem_star]
    constructor
    next =>
      rintro ⟨rest, ⟨front, whole⟩, member⟩
      cases rest with
      | nil => exact absurd member nil_mem_any
      | cons other rest =>
        refine ⟨rest, ?_, cons_mem_any.1 member⟩
        cases front with
        | nil =>
          obtain ⟨_, rfl⟩ := List.cons.inj whole
          exact List.suffix_rfl
        | cons next front =>
          obtain ⟨_, rfl⟩ := List.cons.inj whole
          exact ⟨front ++ [other], by simp⟩
    next =>
      rintro ⟨rest, ⟨front, rfl⟩, member⟩
      cases front using List.reverseRecOn with
      | nil => exact ⟨first :: rest, List.suffix_rfl, cons_mem_any.2 member⟩
      | append_singleton front last =>
        exact ⟨last :: rest, ⟨first :: front, by simp⟩, cons_mem_any.2 member⟩

theorem mem_word {word : List α} :
    text ∈ language fold (word.map Token.letter) ↔ text.map fold = word.map fold := by
  induction word generalizing text with
  | nil => simp
  | cons char word ih =>
    cases text with
    | nil => simp
    | cons first text => simp [ih]

theorem append_mem_word {word front : List α} (same : front.map fold = word.map fold) :
    front ++ text ∈ language fold (word.map Token.letter ++ glob) ↔ text ∈ language fold glob := by
  rw [mem_append]
  constructor
  next =>
    rintro ⟨other, matched, rest, member, whole⟩
    have lengths := congrArg List.length ((mem_word.1 matched).trans same.symm)
    rw [List.length_map, List.length_map] at lengths
    rw [← (List.append_inj whole lengths).2]
    exact member
  next =>
    intro member
    exact ⟨front, mem_word.2 same, text, member, rfl⟩

theorem mem_append_word {word back : List α} (same : back.map fold = word.map fold) :
    text ++ back ∈ language fold (glob ++ word.map Token.letter) ↔ text ∈ language fold glob := by
  rw [mem_append]
  constructor
  next =>
    rintro ⟨front, member, rest, matched, whole⟩
    have lengths := congrArg List.length ((mem_word.1 matched).trans same.symm)
    rw [List.length_map, List.length_map] at lengths
    rw [← (List.append_inj' whole lengths).1]
    exact member
  next =>
    intro member
    exact ⟨text, member, back, mem_word.2 same, rfl⟩

end Glob
