import Ptptl.Ptp.Pattern

set_option autoImplicit false

/-! # What a pattern means, and `CmpPat` on strings in memory -/

namespace Ptp

namespace Collection

open Glob

/-- A name has the form that a pattern says. Nothing has the form of a backslash that quotes
nothing. -/
inductive Means : Bytes → Bytes → Prop where
  | nil : Means [] []
  | any {pat name : Bytes} (char : Byte) (rest : Means pat name) : Means (63 :: pat) (char :: name)
  | star {pat name : Bytes} (front : Bytes) (rest : Means pat name) :
    Means (42 :: pat) (front ++ name)
  | quoted {pat name : Bytes} {first char : Byte} (same : toupper first = toupper char)
    (rest : Means pat name) : Means (92 :: char :: pat) (first :: name)
  | plain {pat name : Bytes} {first char : Byte} (plain : Plain char)
    (same : toupper first = toupper char) (rest : Means pat name) :
    Means (char :: pat) (first :: name)

theorem tokens_any (pat : Bytes) : tokens (63 :: pat) = .any :: tokens pat := by
  rw [tokens.eq_def]
  simp

theorem tokens_star (pat : Bytes) : tokens (42 :: pat) = .star :: tokens pat := by
  rw [tokens.eq_def]
  simp

theorem Means.matches {pat name : Bytes} (means : Means pat name) :
    Matches pat (tokens pat) name := by
  induction means with
  | nil => simp [Matches, dangling, tokens]
  | any char _ ih =>
    obtain ⟨closed, member⟩ := ih
    refine ⟨by rwa [dangling_plain (by decide)], ?_⟩
    rw [tokens_any]
    exact cons_mem_any.2 member
  | star front _ ih =>
    obtain ⟨closed, member⟩ := ih
    refine ⟨by rwa [dangling_plain (by decide)], ?_⟩
    rw [tokens_star]
    exact mem_star.2 ⟨_, List.suffix_append front _, member⟩
  | quoted same _ ih =>
    obtain ⟨closed, member⟩ := ih
    exact ⟨by simpa [dangling] using closed, by simpa [tokens] using ⟨same, member⟩⟩
  | plain plain same _ ih =>
    obtain ⟨closed, member⟩ := ih
    refine ⟨by rwa [dangling_plain plain.2.2], ?_⟩
    rw [tokens_plain plain]
    exact cons_mem_letter.2 ⟨same, member⟩

theorem means_of_matches : ∀ pat name : Bytes, Matches pat (tokens pat) name → Means pat name
  | [], name, matched => by
    have empty : name = [] := by simpa [tokens] using matched.2
    exact empty ▸ .nil
  | char :: pat, name, matched => by
    obtain ⟨closed, member⟩ := matched
    by_cases any : char = 63
    · subst any
      rw [dangling_plain (by decide)] at closed
      rw [tokens_any] at member
      cases name with
      | nil => exact absurd member nil_mem_any
      | cons first name =>
        exact .any first (means_of_matches pat name ⟨closed, cons_mem_any.1 member⟩)
    by_cases several : char = 42
    · subst several
      rw [dangling_plain (by decide)] at closed
      rw [tokens_star] at member
      obtain ⟨rest, ⟨front, rfl⟩, inside⟩ := mem_star.1 member
      exact .star front (means_of_matches pat rest ⟨closed, inside⟩)
    by_cases quote : char = 92
    next =>
      subst quote
      cases pat with
      | nil => simp [dangling] at closed
      | cons quoted pat =>
        cases name with
        | nil => simp [tokens] at member
        | cons first name =>
          obtain ⟨same, member⟩ : toupper first = toupper quoted ∧
              name ∈ language toupper (tokens pat) := by simpa [tokens] using member
          exact .quoted same
            (means_of_matches pat name ⟨by simpa [dangling] using closed, member⟩)
    next =>
      rw [dangling_plain quote] at closed
      rw [tokens_plain ⟨any, several, quote⟩] at member
      cases name with
      | nil => exact absurd member nil_mem_letter
      | cons first name =>
        obtain ⟨same, member⟩ := cons_mem_letter.1 member
        exact .plain ⟨any, several, quote⟩ same (means_of_matches pat name ⟨closed, member⟩)
termination_by pat => pat.length

theorem cmpPat_means (pat name : Bytes) : cmpPat pat name = true ↔ Means pat name :=
  ((cmpPat_correct pat).here name).trans ⟨means_of_matches pat name, Means.matches⟩

/-- One character at `s` against one that stands for itself; `none` behind the memory. -/
def cmpCharMem (char : Byte) (next : Bytes → Option Int) : Bytes → Option Int
  | [] => none
  | first :: rest => if toupper first ≠ toupper char then some (-1) else next rest

/-- The loop over `s` behind a `'*'`, which ends with the name; then the comparison goes on
there. -/
def eachSuffix (compare : Bytes → Option Int) : Bytes → Option Int
  | [] => none
  | first :: rest =>
    if first = 0 then compare (first :: rest)
    else do
      if (← compare (first :: rest)) = 0 then return 0
      eachSuffix compare rest

mutual

/-- `CmpPat(s, p)` in a memory that ends behind `p` and behind `s`; `none` where a read is past
that. -/
def cmpPatMem (pat str : Bytes) : Option Int :=
  match pat with
  | [] => none
  | char :: pat =>
    if char = 0 then str.head?.map fun first => if first ≠ 0 then -1 else 0
    else if char = 63 then
      match str with
      | [] => none
      | first :: rest => if first = 0 then some (-1) else cmpPatMem pat rest
    else if char = 42 then cmpStarMem pat str
    else if char = 92 then
      match pat with
      | [] => none
      | quoted :: pat => if quoted = 0 then some (-1) else cmpCharMem quoted (cmpPatMem pat) str
    else cmpCharMem char (cmpPatMem pat) str
termination_by (pat.length, 0)

/-- The case of a `'*'` at `p - 1`. -/
def cmpStarMem (pat str : Bytes) : Option Int :=
  match pat with
  | [] => none
  | char :: pat =>
    if char = 42 then cmpStarMem pat str
    else if char = 63 then
      match str with
      | [] => none
      | first :: rest => if first = 0 then some (-1) else cmpStarMem pat rest
    else if char = 0 then some 0
    else eachSuffix (cmpPatMem (char :: pat)) str
termination_by (pat.length, 1)

end

def verdictInt (compares : Bool) : Int := if compares then 0 else -1

theorem toupper_zero {char : Byte} (present : char ≠ 0) : toupper 0 ≠ toupper char := by
  intro same
  exact present (toupper_low (by decide) (show toupper char = 0 from same.symm))

theorem cmpCharMem_read {char : Byte} (present : char ≠ 0) {next : Bytes → Option Int}
    {which : Bytes → Bool} {after : Bytes}
    (same : ∀ str, (0 : Byte) ∉ str → next (str ++ 0 :: after) = some (verdictInt (which str)))
    {str : Bytes} (clean : (0 : Byte) ∉ str) :
    cmpCharMem char next (str ++ 0 :: after) = some (verdictInt (cmpChar char which str)) := by
  cases str with
  | nil =>
    simp [cmpCharMem, cmpChar, verdictInt, toupper_zero present]
  | cons first rest =>
    rw [List.cons_append, cmpCharMem, cmpChar]
    by_cases equal : toupper first = toupper char
    · simp [equal, same rest fun member => clean (List.mem_cons_of_mem _ member)]
    · simp [equal, verdictInt]

theorem eachSuffix_read {compare : Bytes → Option Int} {which : Bytes → Bool} {after : Bytes}
    (same : ∀ str, (0 : Byte) ∉ str → compare (str ++ 0 :: after) = some (verdictInt (which str)))
    {str : Bytes} (clean : (0 : Byte) ∉ str) :
    eachSuffix compare (str ++ 0 :: after) = some (verdictInt (str.tails.any which)) := by
  induction str with
  | nil =>
    have last := same [] (by simp)
    simpa [eachSuffix] using last
  | cons first rest ih =>
    have here := same (first :: rest) clean
    have later := ih fun member => clean (List.mem_cons_of_mem _ member)
    have present : first ≠ 0 := fun zero => clean (zero ▸ List.mem_cons_self)
    rw [List.cons_append] at here
    have tails : (first :: rest).tails.any which = (which (first :: rest) || rest.tails.any which) := by
      rw [List.tails_cons, List.any_cons]
    rw [List.cons_append, eachSuffix, if_neg present, here, later, tails]
    cases which (first :: rest) <;> cases rest.tails.any which <;> simp [verdictInt]

structure ReadsMem (pat back after : Bytes) : Prop where
  here : ∀ str, (0 : Byte) ∉ str →
    cmpPatMem (pat ++ 0 :: back) (str ++ 0 :: after) = some (verdictInt (cmpPat pat str))
  later : ∀ str, (0 : Byte) ∉ str →
    cmpStarMem (pat ++ 0 :: back) (str ++ 0 :: after) = some (verdictInt (cmpStar pat str))

variable {pat back after : Bytes} {char : Byte}

theorem ReadsMem.nil (back after : Bytes) : ReadsMem [] back after where
  here := by
    intro str clean
    rw [List.nil_append, cmpPatMem.eq_def]
    cases str with
    | nil => simp [cmpPat, verdictInt]
    | cons first rest =>
      have present : first ≠ 0 := fun zero => clean (zero ▸ List.mem_cons_self)
      simp [cmpPat, verdictInt, present]
  later := by
    intro str clean
    rw [List.nil_append, cmpStarMem.eq_def]
    simp [cmpStar, verdictInt]

theorem ReadsMem.any (reads : ReadsMem pat back after) : ReadsMem (63 :: pat) back after where
  here := by
    intro str clean
    rw [List.cons_append, cmpPatMem.eq_def, cmpPat.eq_def]
    cases str with
    | nil => simp [verdictInt]
    | cons first rest =>
      rw [List.mem_cons, not_or] at clean
      simpa [Ne.symm clean.1] using reads.here rest clean.2
  later := by
    intro str clean
    rw [List.cons_append, cmpStarMem.eq_def, cmpStar.eq_def]
    cases str with
    | nil => simp [verdictInt]
    | cons first rest =>
      rw [List.mem_cons, not_or] at clean
      simpa [Ne.symm clean.1] using reads.later rest clean.2

theorem ReadsMem.star (reads : ReadsMem pat back after) : ReadsMem (42 :: pat) back after where
  here := by
    intro str clean
    rw [List.cons_append, cmpPatMem.eq_def, cmpPat.eq_def]
    simpa using reads.later str clean
  later := by
    intro str clean
    rw [List.cons_append, cmpStarMem.eq_def, cmpStar.eq_def]
    simpa using reads.later str clean

theorem ReadsMem.first {char : Byte} {which : Bytes → Bool}
    (others : char ≠ 42 ∧ char ≠ 63 ∧ char ≠ 0)
    (here : ∀ str, (0 : Byte) ∉ str →
      cmpPatMem (char :: (pat ++ 0 :: back)) (str ++ 0 :: after) = some (verdictInt (which str)))
    {str : Bytes} (clean : (0 : Byte) ∉ str) :
    cmpStarMem (char :: (pat ++ 0 :: back)) (str ++ 0 :: after) =
      some (verdictInt (str.tails.any which)) := by
  rw [cmpStarMem.eq_def]
  simpa only [others.1, others.2.1, others.2.2, if_false] using eachSuffix_read here clean

theorem ReadsMem.dangling (back after : Bytes) : ReadsMem [92] back after := by
  have here (str : Bytes) : cmpPatMem (92 :: ([] ++ 0 :: back)) (str ++ 0 :: after) =
      some (verdictInt false) := by
    rw [cmpPatMem.eq_def]
    simp [verdictInt]
  refine ⟨fun str _ => ?_, fun str clean => ?_⟩
  · rw [List.cons_append, here]
    simp [cmpPat]
  · rw [List.cons_append, ReadsMem.first (by decide) (fun str _ => here str) clean]
    have none : (str.tails.any fun _ => false) = false := List.any_eq_false.2 (by simp)
    rw [none]
    simp [cmpStar]

theorem ReadsMem.quoted (reads : ReadsMem pat back after) {quoted : Byte} (present : quoted ≠ 0) :
    ReadsMem (92 :: quoted :: pat) back after := by
  have here (str : Bytes) (clean : (0 : Byte) ∉ str) :
      cmpPatMem (92 :: ((quoted :: pat) ++ 0 :: back)) (str ++ 0 :: after) =
        some (verdictInt (cmpChar quoted (cmpPat pat) str)) := by
    rw [cmpPatMem.eq_def]
    simpa [present] using cmpCharMem_read present reads.here clean
  refine ⟨fun str clean => ?_, fun str clean => ?_⟩
  · rw [List.cons_append, here str clean]
    simp [cmpPat]
  · rw [List.cons_append, ReadsMem.first (by decide) here clean]
    simp [cmpStar]

theorem ReadsMem.plain (reads : ReadsMem pat back after) (plain : Plain char) (present : char ≠ 0) :
    ReadsMem (char :: pat) back after := by
  obtain ⟨any, several, quote⟩ := plain
  have here (str : Bytes) (clean : (0 : Byte) ∉ str) :
      cmpPatMem (char :: (pat ++ 0 :: back)) (str ++ 0 :: after) =
        some (verdictInt (cmpChar char (cmpPat pat) str)) := by
    rw [cmpPatMem.eq_def]
    simpa [present, any, several, quote] using cmpCharMem_read present reads.here clean
  refine ⟨fun str clean => ?_, fun str clean => ?_⟩
  · rw [List.cons_append, here str clean, cmpPat.eq_def]
    simp [any, several, quote]
  · rw [List.cons_append, ReadsMem.first ⟨several, any, present⟩ here clean, cmpStar.eq_def]
    simp [any, several, quote]

theorem cmpPatMem_reads (back after : Bytes) : ∀ pat : Bytes, (0 : Byte) ∉ pat →
    ReadsMem pat back after
  | [], _ => .nil back after
  | char :: pat, clean => by
    rw [List.mem_cons, not_or] at clean
    have reads := cmpPatMem_reads back after pat clean.2
    by_cases any : char = 63
    · exact any ▸ reads.any
    by_cases several : char = 42
    · exact several ▸ reads.star
    by_cases quote : char = 92
    next =>
      subst quote
      cases pat with
      | nil => exact .dangling back after
      | cons quoted pat =>
        have more := clean.2
        rw [List.mem_cons, not_or] at more
        exact (cmpPatMem_reads back after pat more.2).quoted (Ne.symm more.1)
    next => exact reads.plain ⟨any, several, quote⟩ (Ne.symm clean.1)
termination_by pat => pat.length

theorem cmpPat_exact (name pat : CString) : ∃ result,
    cmpPatMem (pat.val ++ [0]) (name.val ++ [0]) = some result ∧
      (result = 0 ↔ Means pat.val name.val) ∧ (result = -1 ↔ ¬ Means pat.val name.val) := by
  refine ⟨_, (cmpPatMem_reads [] [] pat.val pat.property).here name.val name.property, ?_, ?_⟩
  · rw [← cmpPat_means]
    cases cmpPat pat.val name.val <;> decide
  · rw [← cmpPat_means]
    cases cmpPat pat.val name.val <;> decide

end Collection

end Ptp
