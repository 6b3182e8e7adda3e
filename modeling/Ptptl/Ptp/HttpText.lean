import Ptptl.Ptp.Http

set_option autoImplicit false

/-!
# The text of an HTTP header

A header is a list of lines; its end and its fields are where the first occurrences say,
whatever follows it.
-/

namespace Ptp.Http

open CInt Chunked Search

def Plain (text : Bytes) : Prop := ∀ char ∈ text, char ≠ 0 ∧ char ≠ 13 ∧ char ≠ 10

def linesText (lines : List Bytes) : Bytes := lines.flatMap fun line => line ++ crlf

def PlainLines (lines : List Bytes) : Prop := ∀ line ∈ lines, Plain line ∧ line ≠ []

theorem find_crlf_line {line : Bytes} (plain : Plain line) (rest : Bytes) :
    find (crlf ++ crlf) (line ++ (crlf ++ rest)) =
      if crlf <+: rest then some line.length
      else (find (crlf ++ crlf) rest).map (· + (line.length + 2)) := by
  have skip : (13 : Byte) ∉ line := fun member => (plain 13 member).2.1 rfl
  change find (13 :: 10 :: crlf) (line ++ (13 :: 10 :: rest)) = _
  rw [find_skip _ skip]
  split
  next blank =>
    have found : find (13 :: 10 :: crlf) (13 :: 10 :: rest) = some 0 :=
      find_head (by simpa [List.cons_prefix_cons] using blank)
    simp [found]
  next text =>
    have first : ¬ 13 :: 10 :: crlf <+: 13 :: 10 :: rest := by
      simpa [List.cons_prefix_cons] using text
    have second : ¬ 13 :: 10 :: crlf <+: 10 :: rest := by
      simp [List.cons_prefix_cons]
    rw [find_cons first, find_cons second, Option.map_map, Option.map_map]
    congr 1
    funext position
    simp only [Function.comp_apply]
    omega

theorem find_lf_line {pattern line : Bytes} (plain : Plain line) (rest : Bytes) :
    find (lf :: pattern) (line ++ (crlf ++ rest)) =
      if pattern <+: rest then some (line.length + 1)
      else (find (lf :: pattern) rest).map (· + (line.length + 2)) := by
  have skip : lf ∉ line ++ [13] := by
    intro member
    rcases List.mem_append.1 member with member | member
    · exact (plain lf member).2.2 rfl
    · simp [lf] at member
  have split : line ++ (crlf ++ rest) = (line ++ [13]) ++ lf :: rest := by simp [crlf, lf]
  rw [split, find_skip _ skip]
  split
  next present =>
    rw [find_head (by simpa [List.cons_prefix_cons] using present)]
    simp
  next absent =>
    rw [find_cons (by simpa [List.cons_prefix_cons] using absent), Option.map_map]
    congr 1
    funext position
    simp only [Function.comp_apply, List.length_append, List.length_singleton]
    omega

theorem crlf_not_prefix {line : Bytes} (plain : Plain line) (present : line ≠ []) (rest : Bytes) :
    ¬ crlf <+: line ++ rest := by
  cases line with
  | nil => exact absurd rfl present
  | cons head tail =>
    intro blank
    have same := (List.cons_prefix_cons.1 blank).1
    exact (plain head List.mem_cons_self).2.1 same.symm

theorem find_blank {lines : List Bytes} (plain : PlainLines lines) (some' : lines ≠ [])
    (rest : Bytes) :
    find (crlf ++ crlf) (linesText lines ++ (crlf ++ rest)) =
      some ((linesText lines).length - 2) := by
  induction lines with
  | nil => exact absurd rfl some'
  | cons line lines ih =>
    have plainLine := (plain line List.mem_cons_self).1
    rw [linesText, List.flatMap_cons, List.append_assoc, List.append_assoc,
      find_crlf_line plainLine]
    cases lines with
    | nil =>
      have blank : crlf <+: [].flatMap (fun line => line ++ crlf) ++ (crlf ++ rest) := by simp
      rw [if_pos blank]
      simp [crlf]
    | cons next lines =>
      have plainRest : PlainLines (next :: lines) :=
        fun line member => plain line (List.mem_cons_of_mem _ member)
      have nextLine := plainRest next List.mem_cons_self
      have found := ih plainRest (List.cons_ne_nil _ _)
      have text : ¬ crlf <+: (next :: lines).flatMap (fun line => line ++ crlf) ++
          (crlf ++ rest) := by
        rw [List.flatMap_cons, List.append_assoc, List.append_assoc]
        exact crlf_not_prefix nextLine.1 nextLine.2 _
      rw [linesText] at found
      rw [if_neg text, found]
      simp only [Option.map_some, List.length_append, Option.some.injEq, List.flatMap_cons, crlf,
        List.length_cons, List.length_nil]
      omega

theorem find_lf_blank {lines : List Bytes} (plain : PlainLines lines) :
    find [lf, lf] (linesText lines ++ crlf) = none := by
  induction lines with
  | nil => decide
  | cons line lines ih =>
    have plainRest : PlainLines lines :=
      fun line member => plain line (List.mem_cons_of_mem _ member)
    have text : ¬ [lf] <+: linesText lines ++ crlf := by
      cases lines with
      | nil => decide
      | cons next lines =>
        have nextLine := plainRest next List.mem_cons_self
        cases next with
        | nil => exact absurd rfl nextLine.2
        | cons head tail =>
          intro blank
          have same := (List.cons_prefix_cons.1 blank).1
          exact (nextLine.1 head List.mem_cons_self).2.2 same.symm
    rw [linesText, List.flatMap_cons, List.append_assoc, List.append_assoc,
      find_lf_line (plain line List.mem_cons_self).1]
    rw [linesText] at text ih
    rw [if_neg text, ih plainRest]
    rfl

theorem linesText_clean {lines : List Bytes} (plain : PlainLines lines) :
    (0 : Byte) ∉ linesText lines ++ crlf := by
  intro member
  rcases List.mem_append.1 member with member | member
  · obtain ⟨line, present, member⟩ := List.mem_flatMap.1 member
    rcases List.mem_append.1 member with member | member
    · exact ((plain line present).1 0 member).1 rfl
    · exact absurd member (by decide)
  · exact absurd member (by decide)

theorem headerEnd_take {buffer : Bytes} {stop : Nat} (found : headerEnd buffer = some stop) :
    stop ≤ buffer.length ∧ headerEnd (buffer.take stop) = some stop := by
  have front := cString_front buffer
  have bound := front.length_le
  have clean : (0 : Byte) ∉ cString buffer := by
    intro member
    have nonzero := List.all_eq_true.1 List.all_takeWhile 0 member
    simp at nonzero
  -- the occurrence lies in the string, so cutting the buffer there cuts the string
  have cut (size : Nat) (inside : size ≤ (cString buffer).length) :
      cString (buffer.take size) = (cString buffer).take size := by
    obtain ⟨rest, split⟩ := front
    have same : buffer.take size = (cString buffer).take size := by
      conv => lhs; rw [← split]
      exact List.take_append_of_le_length inside
    rw [same]
    exact cString_eq fun member => clean (List.mem_of_mem_take member)
  unfold headerEnd at found
  split at found
  next position blank =>
    simp only [Option.some.injEq] at found
    subst found
    have inside := find_le blank
    have kept := find_take blank
    change position + 4 ≤ _ at inside
    change find _ ((cString buffer).take (position + 4)) = _ at kept
    refine ⟨by omega, ?_⟩
    simp [headerEnd, strstr, cut _ inside, kept]
  next noBlank =>
    obtain ⟨position, blank, rfl⟩ := Option.map_eq_some_iff.1 found
    have inside := find_le blank
    have kept := find_take blank
    change position + 2 ≤ _ at inside
    change find _ ((cString buffer).take (position + 2)) = _ at kept
    have absent : find (crlf ++ crlf) ((cString buffer).take (position + 2)) = none := by
      apply find_none ((cString buffer).drop (position + 2))
      rw [List.take_append_drop]
      exact noBlank
    refine ⟨by omega, ?_⟩
    simp [headerEnd, strstr, cut _ inside, kept, absent]

theorem find_field {pattern field : Bytes} {lines : List Bytes} (noReturn : (13 : Byte) ∉ pattern)
    (plain : PlainLines lines) (some' : lines ≠ [])
    (absent : ∀ line ∈ lines.tail, ¬ pattern <+: line) (present : pattern <+: field) :
    find (lf :: pattern) (linesText lines ++ field) = some ((linesText lines).length - 1) := by
  induction lines with
  | nil => exact absurd rfl some'
  | cons line lines ih =>
    rw [linesText, List.flatMap_cons, List.append_assoc, List.append_assoc,
      find_lf_line (plain line List.mem_cons_self).1]
    cases lines with
    | nil =>
      have here : pattern <+: [].flatMap (fun line => line ++ crlf) ++ field := present
      rw [if_pos here]
      simp [crlf]
    | cons next lines =>
      have found := ih (fun line member => plain line (List.mem_cons_of_mem _ member))
        (List.cons_ne_nil _ _) (fun line member => absent line (List.mem_cons_of_mem _ member))
      have other : ¬ pattern <+: (next :: lines).flatMap (fun line => line ++ crlf) ++ field := by
        rw [List.flatMap_cons, List.append_assoc, List.append_assoc]
        intro early
        rcases Nat.le_total pattern.length next.length with short | long
        · exact absent next List.mem_cons_self
            (List.prefix_of_prefix_length_le early (List.prefix_append _ _) short)
        · obtain ⟨more, split⟩ :=
            List.prefix_of_prefix_length_le (List.prefix_append _ _) early long
          cases more with
          | nil => exact absent next List.mem_cons_self (by simp [← split])
          | cons head tail =>
            rw [← split, List.prefix_append_right_inj] at early
            have same := (List.cons_prefix_cons.1 early).1
            exact noReturn (by rw [← split, same]; simp)
      rw [linesText] at found
      rw [if_neg other, found]
      simp only [Option.map_some, List.length_append, Option.some.injEq, List.flatMap_cons, crlf,
        List.length_cons, List.length_nil]
      omega

def lengthField : Bytes := ascii "Content-length:"

theorem contentSize_correct {ulong size : Nat} (wide : 4294967296 ≤ ulong)
    (small : (size : Int) ≤ intMax) {lines : List Bytes} (plain : PlainLines lines)
    (some' : lines ≠ []) (absent : ∀ line ∈ lines.tail, ¬ lengthField <+: line) :
    contentSize ulong
      (linesText lines ++ (lengthField ++ ascii " " ++ decimal size ++ crlf ++ crlf)) = size := by
  have short : size < ulong := by
    unfold intMax at small
    omega
  have positive : 0 < (linesText lines).length := by
    cases lines with
    | nil => exact absurd rfl some'
    | cons line lines =>
      simp only [linesText, crlf, List.flatMap_cons, List.length_append, List.length_cons]
      omega
  have noReturn : (13 : Byte) ∉ lengthField := by decide
  have found : strstr (linesText lines ++
      (lengthField ++ ascii " " ++ decimal size ++ crlf ++ crlf)) (lf :: lengthField) =
      some ((linesText lines).length - 1) := by
    apply find_field noReturn plain some' absent
    simp only [List.append_assoc]
    exact List.prefix_append _ _
  have value : (linesText lines ++
      (lengthField ++ ascii " " ++ decimal size ++ crlf ++ crlf)).drop
        ((linesText lines).length - 1 + 16) = ascii " " ++ (decimal size ++ (crlf ++ crlf)) := by
    have position : (linesText lines).length - 1 + 16 =
        (linesText lines ++ lengthField).length := by
      have fifteen : lengthField.length = 15 := by decide
      rw [List.length_append, fifteen]
      omega
    have regroup : linesText lines ++ (lengthField ++ ascii " " ++ decimal size ++ crlf ++ crlf) =
        (linesText lines ++ lengthField) ++ (ascii " " ++ (decimal size ++ (crlf ++ crlf))) := by
      simp only [List.append_assoc]
    rw [position, regroup, List.drop_left]
  have ended : (crlf ++ crlf).takeWhile isdigit = [] := by decide
  have parsed : strtoul ulong (ascii " " ++ (decimal size ++ (crlf ++ crlf))) = size := by
    have space := strtoul_skip ulong (by decide : isspace 32 = true)
      (decimal size ++ (crlf ++ crlf))
    exact space.trans (strtoul_decimal short ended)
  have fieldFound : strstr (linesText lines ++
      (lengthField ++ ascii " " ++ decimal size ++ crlf ++ crlf))
      (lf :: ascii "Content-length:") = some ((linesText lines).length - 1) := found
  simp only [contentSize, fieldFound, value, parsed]
  exact wrap_of_le (by unfold intMin; omega) small

theorem status_request {ulong : Nat} {method text : Bytes}
    (caller : method = ascii "GET" ∨ method = ascii "PUT") :
    status ulong (method ++ text) = badRequest := by
  have other : ¬ ascii "HTTP" <+: method ++ text := by
    intro same
    rcases caller with rfl | rfl
    · exact absurd (List.cons_prefix_cons.1 same).1 (by decide)
    · exact absurd (List.cons_prefix_cons.1 same).1 (by decide)
  exact if_neg other

theorem statusText_ended (code : Int) (rest : Bytes) :
    (statusText code ++ (crlf ++ rest)).takeWhile isdigit = [] := by
  unfold statusText
  split
  · rfl
  split
  · rfl
  split
  · rfl
  split
  · rfl
  · rfl

theorem status_response {ulong : Nat} (wide : 4294967296 ≤ ulong) {code : Nat}
    (small : (code : Int) ≤ intMax) (rest : Bytes) :
    status ulong (statusLine code ++ (crlf ++ rest)) = code := by
  have short : code < ulong := by
    unfold intMax at small
    omega
  have printed : printInt code = decimal code := by
    have nonneg : ¬ (code : Int) < 0 := by omega
    simp [printInt, nonneg]
  have parsed := strtoul_decimal short (statusText_ended code rest)
  have text : statusLine code ++ (crlf ++ rest) =
      ascii "HTTP" ++ 32 :: (decimal code ++ (statusText code ++ (crlf ++ rest))) := by
    rw [statusLine, printed]
    simp [ascii]
  cases digits : decimal code with
  | nil => exact absurd digits (decimal_ne_nil code)
  | cons first others =>
    have digit := decimal_isdigit code first (by rw [digits]; exact List.mem_cons_self)
    have visible : first ≠ 32 := by
      rintro rfl
      exact absurd digit (by decide)
    have skipped : ((ascii "HTTP" ++ 32 :: (first :: others ++
        (statusText code ++ (crlf ++ rest)))).dropWhile (· ≠ 32)).dropWhile (· = 32) =
        first :: others ++ (statusText code ++ (crlf ++ rest)) := by
      have http : ascii "HTTP" = [72, 84, 84, 80] := rfl
      simp [http, visible]
    rw [digits] at text parsed
    rw [text, status, if_pos (List.prefix_append _ _)]
    simp only [skipped]
    rw [List.cons_append] at parsed ⊢
    simp only [digit, if_true, parsed]
    exact wrap_of_le (by unfold intMin; omega) small

end Ptp.Http
