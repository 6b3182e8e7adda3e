import Mathlib.Data.List.Basic

set_option autoImplicit false

/-!
# First occurrences

The position of the first occurrence of a pattern in a text, what it does when the text is
extended or cut behind the occurrence, and occurrences with a mark behind them.
-/

namespace Search

variable {α : Type} [DecidableEq α]

def find (pattern : List α) : List α → Option Nat
  | [] => if pattern = [] then some 0 else none
  | head :: tail =>
      if pattern <+: head :: tail then some 0 else (find pattern tail).map (· + 1)

theorem find_head {pattern text : List α} (present : pattern <+: text) :
    find pattern text = some 0 := by
  cases text with
  | nil => simpa [find] using present
  | cons head tail => simp [find, present]

theorem find_cons {pattern : List α} {head : α} {tail : List α}
    (absent : ¬ pattern <+: head :: tail) :
    find pattern (head :: tail) = (find pattern tail).map (· + 1) := by
  simp [find, absent]

theorem find_spec {pattern text : List α} {position : Nat}
    (found : find pattern text = some position) : pattern <+: text.drop position := by
  induction text generalizing position with
  | nil =>
    simp only [find, Option.ite_none_right_eq_some] at found
    simp [found.1]
  | cons head tail ih =>
    by_cases present : pattern <+: head :: tail
    next =>
      rw [find_head present, Option.some.injEq] at found
      subst found
      exact present
    next =>
      rw [find_cons present, Option.map_eq_some_iff] at found
      obtain ⟨before, found, rfl⟩ := found
      simpa using ih found

theorem find_le {pattern text : List α} {position : Nat}
    (found : find pattern text = some position) : position + pattern.length ≤ text.length := by
  induction text generalizing position with
  | nil =>
    simp only [find, Option.ite_none_right_eq_some, Option.some.injEq] at found
    obtain ⟨rfl, rfl⟩ := found
    simp
  | cons head tail ih =>
    by_cases present : pattern <+: head :: tail
    next =>
      rw [find_head present, Option.some.injEq] at found
      subst found
      simpa using present.length_le
    next =>
      rw [find_cons present, Option.map_eq_some_iff] at found
      obtain ⟨before, found, rfl⟩ := found
      have bound := ih found
      simp only [List.length_cons]
      omega

theorem find_append {pattern text : List α} {position : Nat}
    (found : find pattern text = some position) (rest : List α) :
    find pattern (text ++ rest) = some position := by
  induction text generalizing position with
  | nil =>
    simp only [find, Option.ite_none_right_eq_some, Option.some.injEq] at found
    obtain ⟨rfl, rfl⟩ := found
    exact find_head List.nil_prefix
  | cons head tail ih =>
    by_cases present : pattern <+: head :: tail
    next =>
      rw [find_head present] at found
      rw [find_head (present.trans (List.prefix_append _ _)), found]
    next =>
      rw [find_cons present, Option.map_eq_some_iff] at found
      obtain ⟨before, found, rfl⟩ := found
      -- the pattern fits in the tail, so the extension gives it no earlier place
      have short : pattern.length ≤ (head :: tail).length := by
        have bound := find_le found
        simp only [List.length_cons]
        omega
      have still : ¬ pattern <+: head :: (tail ++ rest) := fun extended =>
        present (List.prefix_of_prefix_length_le extended (List.prefix_append _ rest) short)
      rw [List.cons_append, find_cons still, ih found]
      rfl

theorem find_none {pattern text : List α} (rest : List α)
    (absent : find pattern (text ++ rest) = none) : find pattern text = none := by
  cases found : find pattern text with
  | none => rfl
  | some position => simp [find_append found rest] at absent

theorem find_take {pattern text : List α} {position : Nat}
    (found : find pattern text = some position) :
    find pattern (text.take (position + pattern.length)) = some position := by
  induction text generalizing position with
  | nil =>
    simp only [find, Option.ite_none_right_eq_some] at found
    simp [find, found]
  | cons head tail ih =>
    by_cases present : pattern <+: head :: tail
    next =>
      rw [find_head present, Option.some.injEq] at found
      subst found
      rw [Nat.zero_add, ← List.prefix_iff_eq_take.1 present]
      exact find_head (List.prefix_refl _)
    next =>
      rw [find_cons present, Option.map_eq_some_iff] at found
      obtain ⟨before, found, rfl⟩ := found
      have still : ¬ pattern <+: head :: tail.take (before + pattern.length) := fun cut =>
        present (cut.trans (List.prefix_cons_inj head |>.2 (List.take_prefix _ _)))
      rw [Nat.add_right_comm, List.take_succ_cons, find_cons still, ih found]
      rfl

theorem find_take_eq (pattern text : List α) (size : Nat) :
    find pattern (text.take size) =
      (find pattern text).filter fun position => position + pattern.length ≤ size := by
  have same (position : Nat) (found : find pattern (text.take size) = some position) :
      find pattern text = some position ∧ position + pattern.length ≤ size := by
    have whole := find_append found (text.drop size)
    rw [List.take_append_drop] at whole
    have bound := find_le found
    rw [List.length_take] at bound
    exact ⟨whole, by omega⟩
  cases cut : find pattern (text.take size) with
  | some position =>
    obtain ⟨whole, bound⟩ := same position cut
    rw [whole, Option.filter_some, if_pos (decide_eq_true bound)]
  | none =>
    cases found : find pattern text with
    | none => rfl
    | some position =>
      by_cases bound : position + pattern.length ≤ size
      · have split : text.take (position + pattern.length) ++
            (text.take size).drop (position + pattern.length) = text.take size := by
          rw [← Nat.min_eq_left bound, ← List.take_take, Nat.min_eq_left bound,
            List.take_append_drop]
        have kept := find_append (find_take found)
          ((text.take size).drop (position + pattern.length))
        rw [split, cut] at kept
        cases kept
      · rw [Option.filter_some, if_neg (by simpa using bound)]

theorem find_skip {first : α} {pattern skipped : List α} (text : List α)
    (absent : first ∉ skipped) :
    find (first :: pattern) (skipped ++ text) =
      (find (first :: pattern) text).map (· + skipped.length) := by
  induction skipped with
  | nil => simp
  | cons head tail ih =>
    rw [List.mem_cons, not_or] at absent
    have differ : ¬ first :: pattern <+: head :: (tail ++ text) :=
      fun present => absent.1 (List.cons_prefix_cons.1 present).1
    rw [List.cons_append, find_cons differ, ih absent.2]
    simp [Function.comp_def, Nat.add_assoc]

theorem find_of_prefix {pattern text : List α} {place : Nat} (present : pattern <+: text.drop place)
    (inside : place ≤ text.length) : ∃ position ≤ place, find pattern text = some position := by
  induction text generalizing place with
  | nil =>
    rw [List.drop_nil, List.prefix_nil] at present
    exact ⟨0, Nat.zero_le _, by simp [find, present]⟩
  | cons head tail ih =>
    by_cases here : pattern <+: head :: tail
    next => exact ⟨0, Nat.zero_le _, find_head here⟩
    next =>
      cases place with
      | zero => exact absurd present here
      | succ place =>
        obtain ⟨position, bound, found⟩ := ih present (Nat.le_of_succ_le_succ inside)
        exact ⟨position + 1, Nat.succ_le_succ bound, by rw [find_cons here, found]; rfl⟩

theorem find_split {pattern text : List α} {position : Nat}
    (found : find pattern text = some position) : ∃ front back, front.length = position ∧
      text = front ++ pattern ++ back ∧ text.drop (position + pattern.length) = back := by
  obtain ⟨back, split⟩ := find_spec found
  have inside := find_le found
  refine ⟨text.take position, back, by simp; omega, ?_, ?_⟩
  · rw [List.append_assoc, split, List.take_append_drop]
  · rw [← List.drop_drop, ← split, List.drop_left]

/-! # A pattern with a mark behind it -/

def findMarked (mark : α) (pattern text : List α) : Option (List α) :=
  match find pattern text with
  | none => none
  | some position =>
    let rest := text.drop (position + pattern.length)
    if rest.head? = some mark then some rest.tail
    -- an empty pattern is found again and again
    else if _shorter : rest.length < text.length then findMarked mark pattern rest
    else none
termination_by text.length
decreasing_by exact _shorter

theorem findMarked_step (mark : α) {pattern text : List α} {position : Nat}
    (found : find pattern text = some position) (present : pattern ≠ []) :
    ∃ front back, front.length = position ∧ text = front ++ pattern ++ back ∧
      findMarked mark pattern text =
        if back.head? = some mark then some back.tail else findMarked mark pattern back := by
  obtain ⟨front, back, length, whole, split⟩ := find_split found
  have positive := List.length_pos_of_ne_nil present
  have shorter : back.length < text.length := by
    rw [whole, List.length_append, List.length_append]
    omega
  refine ⟨front, back, length, whole, ?_⟩
  rw [findMarked, found]
  simp only [split, dif_pos shorter]

section

variable {α : Type} {mark : α} {pattern before front back text : List α}

def Clear (mark : α) (pattern before text : List α) : Prop :=
  ∀ front back, text = front ++ mark :: back → ¬ pattern <:+ before ++ front

theorem Clear.append (clearFront : Clear mark pattern before front)
    (clearBack : Clear mark pattern (before ++ front) back) :
    Clear mark pattern before (front ++ back) := by
  intro first last split
  rcases List.append_eq_append_iff.1 split with ⟨middle, rfl, rest⟩ | ⟨middle, same, rest⟩
  · rw [← List.append_assoc]
    exact clearBack middle last rest
  · cases middle with
    | nil =>
      rw [List.append_nil] at same
      have clear := clearBack [] last rest.symm
      rwa [List.append_nil, same] at clear
    | cons head middle =>
      rw [List.cons_append, List.cons.injEq] at rest
      exact clearFront first middle (rest.1 ▸ same)

theorem Clear.tail (clear : Clear mark pattern [] (front ++ back)) : Clear mark pattern [] back := by
  rintro first last rfl
  intro ends
  refine clear (front ++ first) last (by simp) ?_
  rw [List.nil_append] at ends ⊢
  exact ends.trans (List.suffix_append _ _)

theorem clear_of_not_mem (absent : mark ∉ text) : Clear mark pattern before text := by
  rintro first last rfl
  simp at absent

theorem clear_mark (other : ¬ pattern <:+ before) : Clear mark pattern before [mark] := by
  intro first last split
  cases first with
  | nil => rwa [List.append_nil]
  | cons head first => simp at split

def Unbordered (pattern : List α) : Prop :=
  ∀ place, 0 < place → place < pattern.length → ¬ pattern.drop place <+: pattern

end

section

variable {mark : α} {pattern front back text rest : List α}

theorem findMarked_none (clear : Clear mark pattern [] text) (present : pattern ≠ []) :
    findMarked mark pattern text = none := by
  induction size : text.length using Nat.strongRecOn generalizing text with
  | _ size ih =>
    subst size
    have positive := List.length_pos_of_ne_nil present
    cases found : find pattern text with
    | none => rw [findMarked, found]
    | some position =>
      obtain ⟨front, back, length, rfl, step⟩ := findMarked_step mark found present
      have other : back.head? ≠ some mark := by
        intro marked
        obtain ⟨rest, rfl⟩ := List.head?_eq_some_iff.1 marked
        exact clear (front ++ pattern) rest (by simp) (List.suffix_append _ _)
      rw [step, if_neg other]
      exact ih _ (by simp; omega) clear.tail rfl

omit [DecidableEq α] in
theorem Unbordered.apart (unbordered : Unbordered pattern) {middle : List α}
    (same : pattern ++ back = middle ++ (pattern ++ rest)) :
    middle = [] ∨ ∃ apart, middle = pattern ++ apart ∧ back = apart ++ (pattern ++ rest) := by
  rcases Nat.lt_or_ge middle.length pattern.length with short | long
  · left
    obtain ⟨overlap, rfl⟩ := List.prefix_of_prefix_length_le ⟨_, same.symm⟩
      (List.prefix_append pattern back) (Nat.le_of_lt short)
    rw [List.append_assoc, List.append_cancel_left_eq] at same
    cases middle with
    | nil => rfl
    | cons head middle =>
      refine absurd ?_ (unbordered (head :: middle).length (by simp) short)
      rw [List.drop_left]
      refine List.prefix_of_prefix_length_le ⟨back, same⟩ (List.prefix_append _ rest) ?_
      simp only [List.length_append]
      omega
  · right
    obtain ⟨apart, rfl⟩ := List.prefix_of_prefix_length_le (List.prefix_append pattern back)
      ⟨_, same.symm⟩ long
    rw [List.append_assoc, List.append_cancel_left_eq] at same
    exact ⟨apart, rfl, same⟩

theorem findMarked_found (clear : Clear mark pattern [] (front ++ pattern))
    (unbordered : Unbordered pattern) (present : pattern ≠ []) (unmarked : mark ∉ pattern) :
    findMarked mark pattern (front ++ pattern ++ mark :: rest) = some rest := by
  induction size : front.length using Nat.strongRecOn generalizing front with
  | _ size ih =>
    subst size
    have positive := List.length_pos_of_ne_nil present
    have here : pattern <+: (front ++ pattern ++ mark :: rest).drop front.length := by
      rw [List.append_assoc, List.drop_left]
      exact List.prefix_append _ _
    obtain ⟨position, bound, found⟩ := find_of_prefix here (by simp)
    obtain ⟨first, back, rfl, whole, step⟩ := findMarked_step mark found present
    rw [step]
    rw [List.append_assoc, List.append_assoc] at whole
    -- the pattern that is found stands before the one that is looked for, or is that one
    obtain ⟨middle, rfl, rest'⟩ : ∃ middle, front = first ++ middle ∧
        pattern ++ back = middle ++ (pattern ++ mark :: rest) := by
      rcases List.append_eq_append_iff.1 whole with ⟨middle, same, other⟩ | ⟨middle, same, other⟩
      · have none : middle = [] := by
          have length := congrArg List.length same
          rw [List.length_append] at length
          exact List.length_eq_zero_iff.1 (by omega)
        subst none
        exact ⟨[], by simpa using same.symm, by simpa using other.symm⟩
      · exact ⟨middle, same, other⟩
    rcases unbordered.apart rest' with rfl | ⟨apart, rfl, rfl⟩
    · rw [List.nil_append, List.append_cancel_left_eq] at rest'
      rw [rest']
      simp
    · have other : (apart ++ (pattern ++ mark :: rest)).head? ≠ some mark := by
        intro marked
        cases apart with
        | nil =>
          rw [List.nil_append, List.head?_append_of_ne_nil _ present] at marked
          exact unmarked (List.mem_of_head? marked)
        | cons head apart =>
          rw [List.cons_append, List.head?_cons, Option.some.injEq] at marked
          refine clear (first ++ pattern) (apart ++ pattern) ?_ (List.suffix_append _ _)
          simp [marked]
      rw [if_neg other, ← List.append_assoc]
      refine ih apart.length (by simp; omega) ?_ rfl
      have whole' : first ++ (pattern ++ apart) ++ pattern =
          (first ++ pattern) ++ (apart ++ pattern) := by simp
      exact (whole' ▸ clear).tail

end

end Search
