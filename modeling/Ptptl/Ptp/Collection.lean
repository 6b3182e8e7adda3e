import Ptptl.Ptp.CString

set_option autoImplicit false

namespace Ptp

namespace Collection

def slash : Byte := 47

inductive Content where
  | file (path : CString) (size : Nat)
  | data (name : CString) (data : Bytes)
deriving DecidableEq

/-- `Collection::Entry`; the context is a pointer of its creator. -/
structure Entry where
  id : Nat := 0
  content : Content
  context : Option Nat := none
  rescanned : Bool := false
deriving DecidableEq

def baseName (path : CString) : CString :=
  match found : afterLast slash path.val with
  | some last => ⟨last, fun member => path.property ((afterLast_some found).1.subset member)⟩
  | none => path

def Entry.getName (entry : Entry) : CString :=
  match entry.content with
  | .file path _ => baseName path
  | .data name _ => name

def Entry.getSize (entry : Entry) : Nat :=
  match entry.content with
  | .file _ size => size
  | .data _ data => data.length

structure Dir where
  path : CString
  ext : Option CString
  context : Option Nat

theorem baseName_plain (path : CString) : slash ∉ (baseName path).val := by
  unfold baseName
  split
  next last found => exact (afterLast_some found).2
  next absent => exact afterLast_none.1 absent

end Collection

structure Collection where
  id : Nat := 0
  entries : List Collection.Entry := []
  dirs : List Collection.Dir := []

namespace Collection

/-- `Add` of an entry, in front; `unsigned long` has `ulong` values. -/
def add (ulong : Nat) (collect : Collection) (entry : Entry) : Collection :=
  { collect with
    id := (collect.id + 1) % ulong
    entries := { entry with id := collect.id } :: collect.entries }

def find (collect : Collection) (id : Nat) : Option Entry :=
  collect.entries.find? fun entry => entry.id = id

def addDir (collect : Collection) (path : CString) (ext : Option CString) (context : Option Nat) :
    Collection :=
  { collect with dirs := ⟨path, ext, context⟩ :: collect.dirs }

def scanned (dir : Dir) (file : CString × Nat) : Entry where
  content := .file file.1 file.2
  context := dir.context
  rescanned := true

/-- `Rescan`, where `files` are the matching files that are found under a directory. -/
def rescan (ulong : Nat) (collect : Collection) (files : Dir → List (CString × Nat)) :
    Collection :=
  let kept := { collect with entries := collect.entries.filter fun entry => !entry.rescanned }
  collect.dirs.foldl
    (fun collect dir =>
      (files dir).foldl (fun collect file => collect.add ulong (scanned dir file)) collect)
    kept

/-- `Remove`: the directories with a path go, their files at the next scan. -/
def removeDir (collect : Collection) (path : CString) : Collection :=
  { collect with dirs := collect.dirs.filter fun dir => dir.path ≠ path }

def toupper (char : Byte) : Byte := if 97 ≤ char && char ≤ 122 then char - 32 else char

theorem toupper_low {char low : Byte} (small : low.toNat < 65) (same : toupper char = low) :
    char = low := by
  rw [toupper] at same
  split at same
  next letter =>
    simp only [Bool.and_eq_true, decide_eq_true_eq, UInt8.le_iff_toNat_le] at letter
    have large : 97 ≤ char.toNat := letter.1
    have value := congrArg UInt8.toNat same
    rw [UInt8.toNat_sub_of_le _ _ (UInt8.le_iff_toNat_le.2 (Nat.le_trans (by decide) large))] at value
    change char.toNat - 32 = low.toNat at value
    omega
  next => exact same

/-- One character of a name against a `char` that stands for itself. -/
def cmpChar (char : Byte) (next : Bytes → Bool) (str : Bytes) : Bool :=
  match str with
  | [] => false
  | first :: rest => toupper first = toupper char && next rest

mutual

/-- Whether `CmpPat(str, pat)` is 0. -/
def cmpPat : Bytes → Bytes → Bool
  | [], str => str.isEmpty
  | char :: pat, str =>
    if char = 63 then
      match str with
      | [] => false
      | _ :: rest => cmpPat pat rest
    else if char = 42 then cmpStar pat str
    else if char = 92 then
      match pat with
      | [] => false
      | quoted :: pat => cmpChar quoted (cmpPat pat) str
    else cmpChar char (cmpPat pat) str

/-- After a `'*'`. -/
def cmpStar : Bytes → Bytes → Bool
  | [], _ => true
  | char :: pat, str =>
    if char = 42 then cmpStar pat str
    else if char = 63 then
      match str with
      | [] => false
      | _ :: rest => cmpStar pat rest
    else if char = 92 then
      match pat with
      | [] => false
      | quoted :: pat => str.tails.any (cmpChar quoted (cmpPat pat))
    else str.tails.any (cmpChar char (cmpPat pat))

end

/-- The entries that `Find(pat, from)` gives one after another. -/
def findPat (collect : Collection) (pat : Bytes) : List Entry :=
  collect.entries.filter fun entry => cmpPat pat entry.getName.val

example : cmpPat (ascii "*.J?g") (ascii "a.b.jpG") = true := by decide +kernel

theorem scan_entries (ulong : Nat) (files : Dir → List (CString × Nat)) (dirs : List Dir) :
    ∀ start : Collection, ∃ new,
      let last := dirs.foldl (fun collect dir => (files dir).foldl
        (fun collect file => collect.add ulong (scanned dir file)) collect) start
      last.dirs = start.dirs ∧ last.entries = new ++ start.entries ∧
        ∀ entry ∈ new, ∃ dir ∈ dirs, ∃ file ∈ files dir, ∃ id,
          entry = { scanned dir file with id := id } := by
  have scan (dir : Dir) (found : List (CString × Nat)) : ∀ start : Collection, ∃ new,
      let last := found.foldl (fun collect file => collect.add ulong (scanned dir file)) start
      last.dirs = start.dirs ∧ last.entries = new ++ start.entries ∧
        ∀ entry ∈ new, ∃ file ∈ found, ∃ id, entry = { scanned dir file with id := id } := by
    induction found with
    | nil => exact fun start => ⟨[], rfl, rfl, by simp⟩
    | cons file found ih =>
      intro start
      obtain ⟨new, same, entries, all⟩ := ih (start.add ulong (scanned dir file))
      refine ⟨new ++ [{ scanned dir file with id := start.id }], same, ?_, ?_⟩
      · rw [List.foldl_cons, entries, List.append_assoc]
        rfl
      · intro entry member
        rcases List.mem_append.1 member with member | member
        · obtain ⟨other, inside, id, equal⟩ := all entry member
          exact ⟨other, List.mem_cons_of_mem _ inside, id, equal⟩
        · exact ⟨file, List.mem_cons_self, start.id, List.mem_singleton.1 member⟩
  induction dirs with
  | nil => exact fun start => ⟨[], rfl, rfl, by simp⟩
  | cons dir dirs ih =>
    intro start
    obtain ⟨here, dirsHere, entriesHere, allHere⟩ := scan dir (files dir) start
    obtain ⟨new, same, entries, all⟩ := ih ((files dir).foldl
      (fun collect file => collect.add ulong (scanned dir file)) start)
    refine ⟨new ++ here, same.trans dirsHere, ?_, ?_⟩
    · rw [List.foldl_cons, entries, entriesHere, List.append_assoc]
    · intro entry member
      rcases List.mem_append.1 member with member | member
      · obtain ⟨other, inside, found⟩ := all entry member
        exact ⟨other, List.mem_cons_of_mem _ inside, found⟩
      · exact ⟨dir, List.mem_cons_self, allHere entry member⟩

theorem rescan_entries (ulong : Nat) (collect : Collection) (files : Dir → List (CString × Nat)) :
    (collect.rescan ulong files).dirs = collect.dirs ∧
      ∃ new, (collect.rescan ulong files).entries =
          new ++ collect.entries.filter (fun entry => !entry.rescanned) ∧
        ∀ entry ∈ new, ∃ dir ∈ collect.dirs, ∃ file ∈ files dir, ∃ id,
          entry = { scanned dir file with id := id } := by
  obtain ⟨new, dirs, entries, all⟩ := scan_entries ulong files collect.dirs
    { collect with entries := collect.entries.filter fun entry => !entry.rescanned }
  exact ⟨dirs, new, entries, all⟩

theorem rescan_forall (ulong : Nat) (collect : Collection) (files : Dir → List (CString × Nat))
    (property : Entry → Prop) (kept : ∀ entry ∈ collect.entries, property entry)
    (new : ∀ dir file id, property { scanned dir file with id := id }) :
    ∀ entry ∈ (collect.rescan ulong files).entries, property entry := by
  obtain ⟨_, found, entries, all⟩ := rescan_entries ulong collect files
  rw [entries]
  intro entry member
  rcases List.mem_append.1 member with member | member
  · obtain ⟨dir, _, file, _, id, rfl⟩ := all entry member
    exact new dir file id
  · exact kept entry (List.mem_filter.1 member).1

end Collection

end Ptp
