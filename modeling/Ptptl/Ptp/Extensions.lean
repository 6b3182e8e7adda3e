import Ptptl.Ptp.Scan

set_option autoImplicit false

/-! # Lists of extensions -/

namespace Ptp.Collection

def afterItem (start : Bytes) : Bytes :=
  (start.dropWhile (· ≠ semicolon)).dropWhile (· = semicolon)

theorem afterItem_length {start : Bytes} (more : start ≠ []) :
    (afterItem start).length < start.length := by
  cases start with
  | nil => exact absurd rfl more
  | cons char rest =>
    by_cases separator : char = semicolon
    next =>
      have tail := (List.dropWhile_suffix (· = semicolon) : rest.dropWhile _ <:+ rest).length_le
      simpa [afterItem, separator] using Nat.lt_succ_of_le tail
    next =>
      have item := (List.dropWhile_suffix (· ≠ semicolon) : rest.dropWhile _ <:+ rest).length_le
      have tail := (List.dropWhile_suffix (· = semicolon) :
        (rest.dropWhile (· ≠ semicolon)).dropWhile _ <:+ _).length_le
      have within := Nat.le_trans tail item
      simpa [afterItem, separator] using Nat.lt_succ_of_le within

def cmpExtLoop (name start : Bytes) : Bool :=
  if _more : start = [] then false
  else cmpExtItem name (start.takeWhile (· ≠ semicolon)) || cmpExtLoop name (afterItem start)
termination_by start.length
decreasing_by exact afterItem_length _more

theorem splitOn_separator (text : Bytes) :
    (semicolon :: text).splitOn semicolon = [] :: text.splitOn semicolon := by
  simp [List.splitOn_cons_eq_if_modifyHead]

theorem splitOn_skip (text : Bytes) :
    (text.splitOn semicolon).filter (· ≠ []) =
      ((text.dropWhile (· = semicolon)).splitOn semicolon).filter (· ≠ []) := by
  induction text with
  | nil => rfl
  | cons char text ih =>
    by_cases separator : char = semicolon
    · rw [separator, splitOn_separator, List.filter_cons_of_neg (by simp), ih]
      simp
    · simp [separator]

theorem splitOn_item {char : Byte} (other : char ≠ semicolon) (text : Bytes) : ∃ item rest,
    (char :: text).splitOn semicolon = (char :: item) :: rest := by
  cases split : text.splitOn semicolon with
  | nil => exact absurd split (List.splitOn_ne_nil _ _)
  | cons item rest =>
    exact ⟨item, rest, by simp [List.splitOn_cons_eq_if_modifyHead, other, split]⟩

theorem cmpExtLoop_items (name : Bytes) (start : Bytes) : ∀ first rest, start ≠ [] →
    start.splitOn semicolon = first :: rest →
    cmpExtLoop name start = (first :: rest.filter (· ≠ [])).any (cmpExtItem name) := by
  induction size : start.length using Nat.strongRecOn generalizing start with
  | ind size ih =>
    intro first rest more split
    subst size
    have parts : start.takeWhile (· ≠ semicolon) ++ start.dropWhile (· ≠ semicolon) = start :=
      List.takeWhile_append_dropWhile
    have plain : semicolon ∉ start.takeWhile (· ≠ semicolon) := by
      intro member
      have all := List.all_eq_true.1 List.all_takeWhile _ member
      simp at all
    rw [cmpExtLoop, dif_neg more, List.any_cons]
    cases ends : start.dropWhile (· ≠ semicolon) with
    | nil =>
      rw [ends, List.append_nil] at parts
      rw [← parts, List.splitOn_eq_singleton plain, List.cons.injEq] at split
      obtain ⟨rfl, rfl⟩ := split
      have last : afterItem start = [] := by rw [afterItem, ends, List.dropWhile_nil]
      rw [last, cmpExtLoop]
      simp
    | cons mark tail =>
      have separator : mark = semicolon := by
        have stops := List.head?_dropWhile_not (· ≠ semicolon) start
        rw [ends] at stops
        simpa using stops
      rw [ends, separator] at parts
      rw [← parts, List.splitOn_append_cons_self_of_not_mem plain, List.cons.injEq] at split
      obtain ⟨rfl, rfl⟩ := split
      have after : afterItem start = tail.dropWhile (· = semicolon) := by
        rw [afterItem, ends, separator, List.dropWhile_cons_of_pos (by simp)]
      rw [splitOn_skip, ← after]
      congr 1
      cases following : afterItem start with
      | nil =>
        rw [cmpExtLoop]
        simp
      | cons char text =>
        have other : char ≠ semicolon := by
          have stops := List.head?_dropWhile_not (· = semicolon) tail
          rw [← after, following] at stops
          simpa using stops
        obtain ⟨item, others, split⟩ := splitOn_item other text
        have shorter := following ▸ afterItem_length more
        rw [ih _ shorter (char :: text) rfl (char :: item) others (by simp) split, split,
          List.filter_cons_of_pos (by simp)]

theorem cmpExt_loop (name ext : CString) (present : ext.val ≠ []) :
    cmpExt name (some ext) = cmpExtLoop name.val ext.val := by
  cases split : ext.val.splitOn semicolon with
  | nil => exact absurd split (List.splitOn_ne_nil _ _)
  | cons first rest =>
    rw [cmpExtLoop_items name.val ext.val first rest present split]
    simp only [cmpExt, present, if_false, split]

def EndsWith (name item : Bytes) : Prop :=
  ∃ front back, name = front ++ dot :: back ∧ back.map toupper = item.map toupper

/-- As `EndsWith`, with something in front of the dot. -/
def Extends (name item : Bytes) : Prop :=
  ∃ front back, front ≠ [] ∧ name = front ++ dot :: back ∧ back.map toupper = item.map toupper

def Dotted (item : Bytes) : Prop := item.head? = some dot

instance (item : Bytes) : Decidable (Dotted item) := inferInstanceAs (Decidable (_ = _))

def undotted (item : Bytes) : Bytes := if Dotted item then item.tail else item

def items (ext : CString) : List Bytes := ext.val.splitOn semicolon

def Listed (name : CString) : Option CString → Prop
  | none => True
  | some ext => ext.val = [] ∨ ∃ item ∈ items ext, item ≠ [] ∧ Extends name.val (undotted item)

theorem cmpExtItem_iff (name item : Bytes) : cmpExtItem name item = true ↔ EndsWith name item := by
  simp only [cmpExtItem, Bool.and_eq_true, decide_eq_true_eq]
  constructor
  next =>
    rintro ⟨⟨short, mark⟩, same⟩
    refine ⟨name.take (name.length - item.length - 1), name.drop (name.length - item.length), ?_, same⟩
    obtain ⟨inside, here⟩ := List.getElem?_eq_some_iff.1 mark
    have next : name.length - item.length - 1 + 1 = name.length - item.length := by omega
    conv => lhs; rw [← List.take_append_drop (name.length - item.length - 1) name]
    rw [List.drop_eq_getElem_cons inside, here, next]
  next =>
    rintro ⟨front, back, rfl, same⟩
    have length := congrArg List.length same
    rw [List.length_map, List.length_map] at length
    have place : (front ++ dot :: back).length - item.length = (front ++ [dot]).length := by
      simp only [List.length_append, List.length_cons, List.length_nil]
      omega
    have before : (front ++ dot :: back).length - item.length - 1 = front.length := by
      rw [place, List.length_append, List.length_singleton, Nat.add_sub_cancel]
    refine ⟨⟨?_, ?_⟩, ?_⟩
    · simp only [List.length_append, List.length_cons]
      omega
    · rw [before]
      simp
    · have split : front ++ dot :: back = (front ++ [dot]) ++ back := by simp
      rw [place, split, List.drop_left]
      exact same

def ByPlain (name ext : CString) : Prop :=
  ∃ item ∈ items ext, item ≠ [] ∧ ¬ Dotted item ∧ Extends name.val item

def ByDoubled (name ext : CString) : Prop :=
  ∃ item ∈ items ext, Dotted item ∧ EndsWith name.val item

def ByDotted (name ext : CString) : Prop :=
  ∃ item ∈ items ext, Dotted item ∧ Extends name.val item.tail

/-- As `ByPlain`, but the dot may be the first character; a list that starts with a separator also
has the empty item. -/
def ByBare (name ext : CString) : Prop :=
  (∃ item ∈ items ext, item ≠ [] ∧ ¬ Dotted item ∧ EndsWith name.val item) ∨
    (items ext).head? = some [] ∧ EndsWith name.val []

theorem Extends.endsWith {name item : Bytes} (extends' : Extends name item) : EndsWith name item := by
  obtain ⟨front, back, _, whole, same⟩ := extends'
  exact ⟨front, back, whole, same⟩

theorem EndsWith.doubled {name item : Bytes} (dotted : Dotted item) (ends : EndsWith name item) :
    Extends name item.tail := by
  obtain ⟨rest, rfl⟩ := List.head?_eq_some_iff.1 dotted
  obtain ⟨front, back, rfl, same⟩ := ends
  cases back with
  | nil => simp at same
  | cons char back =>
    rw [List.map_cons, List.map_cons, List.cons.injEq] at same
    rw [toupper_low (by decide) (show toupper char = dot from same.1)]
    exact ⟨front ++ [dot], back, by simp, by simp, same.2⟩

theorem cmpExt_iff (name ext : CString) (present : ext.val ≠ []) :
    cmpExt name (some ext) = true ↔ ByBare name ext ∨ ByDoubled name ext := by
  unfold ByBare ByDoubled items
  cases split : ext.val.splitOn semicolon with
  | nil => exact absurd split (List.splitOn_ne_nil _ _)
  | cons first rest =>
    simp only [cmpExt, present, if_false, split, List.any_eq_true, cmpExtItem_iff, List.mem_cons,
      List.mem_filter, decide_eq_true_eq, List.head?_cons, Option.some.injEq]
    constructor
    next =>
      rintro ⟨item, member, ends⟩
      by_cases dotted : Dotted item
      · exact .inr ⟨item, member.imp_right And.left, dotted, ends⟩
      by_cases empty : item = []
      · rcases member with rfl | ⟨_, other⟩
        · exact .inl (.inr ⟨empty, empty ▸ ends⟩)
        · exact absurd empty other
      · exact .inl (.inl ⟨item, member.imp_right And.left, empty, dotted, ends⟩)
    next =>
      rintro ((⟨item, member, present, _, ends⟩ | ⟨empty, ends⟩) | ⟨item, member, dotted, ends⟩)
      · exact ⟨item, member.imp_right (⟨·, present⟩), ends⟩
      · exact ⟨first, .inl rfl, empty ▸ ends⟩
      · have present : item ≠ [] := by
          rintro rfl
          simp [Dotted] at dotted
        exact ⟨item, member.imp_right (⟨·, present⟩), ends⟩

theorem listed_iff (name ext : CString) (present : ext.val ≠ []) :
    Listed name (some ext) ↔ ByPlain name ext ∨ ByDotted name ext := by
  simp only [Listed, present, false_or, ByPlain, ByDotted]
  constructor
  next =>
    rintro ⟨item, member, some_, extends'⟩
    by_cases dotted : Dotted item
    · rw [undotted, if_pos dotted] at extends'
      exact .inr ⟨item, member, dotted, extends'⟩
    · rw [undotted, if_neg dotted] at extends'
      exact .inl ⟨item, member, some_, dotted, extends'⟩
  next =>
    rintro (⟨item, member, some_, plain, extends'⟩ | ⟨item, member, dotted, extends'⟩)
    · exact ⟨item, member, some_, by rwa [undotted, if_neg plain]⟩
    · refine ⟨item, member, ?_, by rwa [undotted, if_pos dotted]⟩
      rintro rfl
      simp [Dotted] at dotted

def Regular (name : CString) : Option CString → Prop
  | none => True
  | some ext => ext.val = [] ∨ ByPlain name ext ∨ ByDoubled name ext ∨
      (ByBare name ext ↔ ByDotted name ext)

theorem cmpExt_listed_iff (name : CString) (ext : Option CString) :
    (cmpExt name ext = true ↔ Listed name ext) ↔ Regular name ext := by
  cases ext with
  | none => simp [cmpExt, Listed, Regular]
  | some ext =>
    by_cases present : ext.val = []
    next => simp [cmpExt, Listed, Regular, present]
    next =>
      have bare : ByPlain name ext → ByBare name ext := by
        intro plain
        obtain ⟨item, member, some', plain, found⟩ := plain
        exact .inl ⟨item, member, some', plain, found.endsWith⟩
      have dotted : ByDoubled name ext → ByDotted name ext := by
        intro doubled
        obtain ⟨item, member, mark, found⟩ := doubled
        exact ⟨item, member, mark, found.doubled mark⟩
      rw [cmpExt_iff name ext present, listed_iff name ext present]
      simp only [Regular, present, false_or]
      by_cases plain : ByPlain name ext
      · simp [plain, bare plain]
      by_cases doubled : ByDoubled name ext
      · simp [doubled, dotted doubled]
      · simp [plain, doubled]

/-- The list that the documentation of `Add` gives. -/
theorem cmpExt_unlisted : ¬ ∀ (name : CString) (ext : Option CString),
    cmpExt name ext = true ↔ Listed name ext := by
  intro always
  have missed : Listed ⟨ascii "a.gz", by decide⟩ (some ⟨ascii ".gz;.tar", by decide⟩) := by
    refine .inr ⟨ascii ".gz", by decide, by decide, [97], ascii "gz", by decide, by decide, ?_⟩
    decide
  exact absurd ((always _ _).2 missed) (by decide +kernel)

end Ptp.Collection
