import Ptptl.Ptp.Pattern

set_option autoImplicit false

/-! # What `CmpPat` reads of a pattern in memory -/

namespace Ptp

namespace Collection

def anyIn (compare : Bytes → Option Bool) : List Bytes → Option Bool
  -- the strings behind the first one that compares are not read
  | [] => some false
  | str :: rest => do
    if ← compare str then some true else anyIn compare rest

def cmpCharIn (char : Byte) (next : Bytes → Option Bool) (str : Bytes) : Option Bool :=
  match str with
  | [] => some false
  | first :: rest => if toupper first = toupper char then next rest else some false

mutual

/-- `CmpPat(str, pat)` when the bytes of `pat` are all that lies in memory; `none` when it reads
behind them. -/
def cmpPatIn : Bytes → Bytes → Option Bool
  | [], _ => none
  | char :: pat, str =>
    if char = 0 then some str.isEmpty
    else if char = 63 then
      match str with
      | [] => some false
      | _ :: rest => cmpPatIn pat rest
    else if char = 42 then cmpStarIn pat str
    else if char = 92 then
      match pat with
      | [] => none
      | quoted :: pat => if quoted = 0 then some false else cmpCharIn quoted (cmpPatIn pat) str
    else cmpCharIn char (cmpPatIn pat) str

def cmpStarIn : Bytes → Bytes → Option Bool
  | [], _ => none
  | char :: pat, str =>
    if char = 0 then some true
    else if char = 42 then cmpStarIn pat str
    else if char = 63 then
      match str with
      | [] => some false
      | _ :: rest => cmpStarIn pat rest
    else if char = 92 then
      match pat with
      | [] => none
      | quoted :: pat =>
        if quoted = 0 then some false else anyIn (cmpCharIn quoted (cmpPatIn pat)) str.tails
    else anyIn (cmpCharIn char (cmpPatIn pat)) str.tails

end

def seen : Bytes → Bytes
  -- where there is no NUL, anything may follow
  | [] => [42]
  | char :: pat =>
    if char = 0 then []
    else if char = 92 then
      match pat with
      | [] => [42]
      | quoted :: pat => if quoted = 0 then [92] else 92 :: quoted :: seen pat
    else char :: seen pat

def verdict (ended compares : Bool) : Option Bool :=
  if compares && !ended then none else some compares

theorem anyIn_verdict {compare : Bytes → Option Bool} {which : Bytes → Bool} {ended : Bool}
    (same : ∀ str, compare str = verdict ended (which str)) (strs : List Bytes) :
    anyIn compare strs = verdict ended (strs.any which) := by
  induction strs with
  | nil => simp [anyIn, verdict]
  | cons str rest ih =>
    rw [anyIn, same, ih, List.any_cons]
    cases which str <;> cases ended <;> simp [verdict]

/-- Both functions read a pattern in memory as they do what is seen of it. -/
structure Reads (pat : Bytes) : Prop where
  here : ∀ str, cmpPatIn pat str = verdict (pat.contains 0) (cmpPat (seen pat) str)
  later : ∀ str, cmpStarIn pat str = verdict (pat.contains 0) (cmpStar (seen pat) str)

variable {pat : Bytes} {char : Byte}

theorem Reads.cmpChar (reads : Reads pat) (char : Byte) (str : Bytes) :
    cmpCharIn char (cmpPatIn pat) str =
      verdict (pat.contains 0) (Collection.cmpChar char (cmpPat (seen pat)) str) := by
  cases str with
  | nil => simp [cmpCharIn, Collection.cmpChar, verdict]
  | cons first rest =>
    rw [cmpCharIn, Collection.cmpChar]
    by_cases same : toupper first = toupper char
    · simp [same, reads.here]
    · simp [same, verdict]

theorem Reads.tails (reads : Reads pat) (char : Byte) (str : Bytes) :
    anyIn (cmpCharIn char (cmpPatIn pat)) str.tails =
      verdict (pat.contains 0) (str.tails.any (Collection.cmpChar char (cmpPat (seen pat)))) :=
  anyIn_verdict (reads.cmpChar char) str.tails

theorem seen_ended (pat : Bytes) : seen (0 :: pat) = [] := by
  rw [seen.eq_def]
  simp

theorem seen_cons (more : char ≠ 0) (other : char ≠ 92) (pat : Bytes) :
    seen (char :: pat) = char :: seen pat := by
  rw [seen.eq_def]
  simp [more, other]

theorem Reads.nil : Reads [] where
  here := by simp [cmpPatIn, seen, cmpPat, cmpStar, verdict]
  later := by simp [cmpStarIn, seen, cmpStar, verdict]

theorem Reads.ended (pat : Bytes) : Reads (0 :: pat) where
  here := by
    intro str
    rw [seen_ended, cmpPatIn.eq_def]
    simp [cmpPat, verdict]
  later := by
    intro str
    rw [seen_ended, cmpStarIn.eq_def]
    simp [cmpStar, verdict]

theorem Reads.any (reads : Reads pat) : Reads (63 :: pat) where
  here := by
    intro str
    rw [seen_cons (by decide) (by decide), cmpPatIn.eq_def, cmpPat.eq_def]
    cases str with
    | nil => simp [verdict]
    | cons first rest => simpa using reads.here rest
  later := by
    intro str
    rw [seen_cons (by decide) (by decide), cmpStarIn.eq_def, cmpStar.eq_def]
    cases str with
    | nil => simp [verdict]
    | cons first rest => simpa using reads.later rest

theorem Reads.star (reads : Reads pat) : Reads (42 :: pat) where
  here := by
    intro str
    rw [seen_cons (by decide) (by decide), cmpPatIn.eq_def, cmpPat.eq_def]
    simpa using reads.later str
  later := by
    intro str
    rw [seen_cons (by decide) (by decide), cmpStarIn.eq_def, cmpStar.eq_def]
    simpa using reads.later str

theorem Reads.dangling : Reads [92] where
  here := by simp [cmpPatIn, seen, cmpPat, cmpStar, verdict]
  later := by simp [cmpStarIn, seen, cmpStar, verdict]

theorem Reads.quoted (reads : Reads pat) (quoted : Byte) : Reads (92 :: quoted :: pat) := by
  by_cases ended : quoted = 0
  next =>
    subst ended
    exact ⟨by simp [cmpPatIn, seen, cmpPat, verdict], by simp [cmpStarIn, seen, cmpStar, verdict]⟩
  next =>
    have other : ¬ 0 = quoted := fun same => ended same.symm
    refine ⟨fun str => ?_, fun str => ?_⟩
    · simpa [cmpPatIn, seen, cmpPat, ended, other] using reads.cmpChar quoted str
    · simpa [cmpStarIn, seen, cmpStar, ended, other] using reads.tails quoted str

theorem Reads.plain (reads : Reads pat) (plain : Plain char) (more : char ≠ 0) :
    Reads (char :: pat) := by
  have other : ¬ 0 = char := fun same => more same.symm
  have text := seen_cons more plain.2.2 pat
  refine ⟨fun str => ?_, fun str => ?_⟩
  · rw [text, cmpPatIn.eq_def, cmpPat.eq_def]
    simpa [more, other, plain.1, plain.2.1, plain.2.2] using reads.cmpChar char str
  · rw [text, cmpStarIn.eq_def, cmpStar.eq_def]
    simpa [more, other, plain.1, plain.2.1, plain.2.2] using reads.tails char str

/-- The comparison leaves a pattern without a NUL exactly when more of it could match. -/
theorem cmpPatIn_correct : ∀ pat, Reads pat
  | [] => .nil
  | char :: pat => by
    have reads := cmpPatIn_correct pat
    by_cases ended : char = 0
    · exact ended ▸ .ended pat
    by_cases any : char = 63
    · exact any ▸ reads.any
    by_cases several : char = 42
    · exact several ▸ reads.star
    by_cases quote : char = 92
    next =>
      subst quote
      cases pat with
      | nil => exact .dangling
      | cons quoted pat => exact (cmpPatIn_correct pat).quoted quoted
    next => exact reads.plain ⟨any, several, quote⟩ ended
termination_by pat => pat.length

theorem seen_terminated : ∀ pat : Bytes, 0 ∈ pat → seen pat = cString pat
  | [], ended => by simp at ended
  | char :: pat, ended => by
    by_cases here : char = 0
    next => simp [seen_ended, cString, here]
    next =>
      have later : 0 ∈ pat := (List.mem_cons.1 ended).resolve_left fun same => here same.symm
      by_cases quote : char = 92
      next =>
        subst quote
        cases pat with
        | nil => simp at later
        | cons quoted pat =>
          by_cases dangles : quoted = 0
          next => simp [seen, cString, dangles]
          next =>
            have last : 0 ∈ pat :=
              (List.mem_cons.1 later).resolve_left fun same => dangles same.symm
            simpa [seen, cString, dangles] using seen_terminated pat last
      next =>
        rw [seen_cons here quote]
        simpa [cString, here] using seen_terminated pat later
termination_by pat => pat.length

/-- The entries that `Find` gives one after another for a pattern in memory. -/
def findPatIn (pat : Bytes) : List Entry → Option (List Entry)
  | [] => some []
  | entry :: rest => do
    let found ← cmpPatIn pat entry.getName.val
    let others ← findPatIn pat rest
    some (if found then entry :: others else others)

theorem findPatIn_correct (collect : Collection) (pat : Bytes) :
    findPatIn pat collect.entries =
      if 0 ∈ pat then some (collect.findPat (cString pat))
      else if collect.findPat (seen pat) = [] then some [] else none := by
  have reads := (cmpPatIn_correct pat).here
  unfold findPat
  by_cases ended : 0 ∈ pat
  next =>
    rw [if_pos ended, ← seen_terminated pat ended]
    have terminated : pat.contains 0 = true := by simpa using ended
    induction collect.entries with
    | nil => rfl
    | cons entry rest ih =>
      rw [findPatIn, reads, ih, terminated]
      by_cases found : cmpPat (seen pat) entry.getName.val = true <;> simp [verdict, found]
  next =>
    rw [if_neg ended]
    have open_ : pat.contains 0 = false := by simpa using ended
    induction collect.entries with
    | nil => rfl
    | cons entry rest ih =>
      rw [findPatIn, reads, ih, open_]
      by_cases found : cmpPat (seen pat) entry.getName.val = true
      · simp [verdict, found]
      · by_cases others : rest.filter (fun entry => cmpPat (seen pat) entry.getName.val) = [] <;>
          simp [verdict, found, others]

end Collection

end Ptp
