import Mathlib.Data.List.Perm.Basic
import Mathlib.Data.List.Flatten
import Ptptl.Library.Worklist
import Ptptl.Ptp.Scan

set_option autoImplicit false

/-! # The scan of a directory tree, on POSIX and on WIN32 -/

namespace Ptp.Collection

open Worklist

/-- What lies at a path: a file, a directory that can be read or not, or nothing. -/
inductive Tree where
  | file (size : Nat)
  | directory (entries : List (CString × Tree))
  | locked
  | missing

/-- A file at some depth of a tree. -/
structure Found where
  dir : List CString
  name : CString
  size : Nat

def Found.under (name : CString) (file : Found) : Found := { file with dir := name :: file.dir }

mutual

def Tree.files : Tree → List Found
  | .directory entries => filesIn entries
  | _ => []

def filesIn : List (CString × Tree) → List Found
  | [] => []
  | (name, .file size) :: rest => ⟨[], name, size⟩ :: filesIn rest
  | (name, tree) :: rest =>
    tree.files.map (Found.under name) ++ filesIn rest

end

mutual

def Tree.reads {α : Type} (step : α → CString → α) (place : α) :
    Tree → List (α × List (CString × Tree))
  | .directory entries => (place, entries) :: readsIn step place entries
  | _ => []

def readsIn {α : Type} (step : α → CString → α) (place : α) :
    List (CString × Tree) → List (α × List (CString × Tree))
  | [] => []
  | (name, tree) :: rest => readsIn step place rest ++ tree.reads step (step place name)

end

def Found.path (join : CString → CString → CString) (root : CString) (file : Found) : CString :=
  join (file.dir.foldl join root) file.name

section

variable {α β : Type} (step : α → CString → α) (one : α → CString × Tree → List β)

mutual

def Tree.gather (place : α) : Tree → List β
  | .directory entries => gatherIn place entries
  | _ => []

/-- What `one` gives of the entries of a directory, at any depth. -/
def gatherIn (place : α) : List (CString × Tree) → List β
  | [] => []
  | (name, tree) :: rest =>
    one place (name, tree) ++ tree.gather (step place name) ++ gatherIn place rest

end

theorem gatherIn_flatMap (place : α) (entries : List (CString × Tree)) :
    gatherIn step one place entries =
      entries.flatMap fun entry => one place entry ++ entry.2.gather step one (step place entry.1) := by
  induction entries with
  | nil => rfl
  | cons entry rest ih => rw [gatherIn, ih, List.flatMap_cons]

mutual

theorem Tree.gather_files (plain : ∀ place name tree, (∀ size, tree ≠ .file size) →
      one place (name, tree) = []) (place : α) : ∀ tree : Tree,
    tree.gather step one place = tree.files.flatMap fun file =>
      one (file.dir.foldl step place) (file.name, .file file.size)
  | .file _ => rfl
  | .locked => rfl
  | .missing => rfl
  | .directory entries => by
    rw [Tree.gather, Tree.files]
    exact gatherIn_files plain place entries

theorem gatherIn_files (plain : ∀ place name tree, (∀ size, tree ≠ .file size) →
      one place (name, tree) = []) (place : α) : ∀ entries : List (CString × Tree),
    gatherIn step one place entries = (filesIn entries).flatMap fun file =>
      one (file.dir.foldl step place) (file.name, .file file.size)
  | [] => rfl
  | (name, tree) :: rest => by
    have later := gatherIn_files plain place rest
    have below := Tree.gather_files plain (step place name) tree
    have inside (none : one place (name, tree) = []) :
        one place (name, tree) ++ tree.gather step one (step place name) ++
            gatherIn step one place rest =
          (tree.files.map (Found.under name) ++ filesIn rest).flatMap fun file =>
            one (file.dir.foldl step place) (file.name, .file file.size) := by
      rw [none, below, later, List.nil_append, List.flatMap_append, List.flatMap_map]
      rfl
    cases tree with
    | file size =>
      have none : (Tree.file size).gather step one (step place name) = [] := rfl
      rw [gatherIn, none, List.append_nil, later, filesIn, List.flatMap_cons]
      rfl
    | directory entries => exact inside (plain _ _ _ (by simp))
    | locked => exact inside (plain _ _ _ (by simp))
    | missing => exact inside (plain _ _ _ (by simp))

end

variable (opens : α → Option (List α)) (emit : α → List β) (follows : CString × Tree → Bool)

/-- The listings at a place are those of a tree; the entries that `follows` tells are opened, from
the last one. -/
inductive Lies : α → Tree → Prop where
  | file (place : α) (size : Nat) : Lies place (.file size)
  | directory {place : α} {entries : List (CString × Tree)} (listed : List (CString × Tree))
    (order : listed.Perm entries)
    (opened : opens place =
      some ((listed.filter follows).reverse.map fun entry => step place entry.1))
    (emits : emit place = listed.flatMap (one place))
    (inside : ∀ entry ∈ entries, Lies (step place entry.1) entry.2) : Lies place (.directory entries)
  | locked {place : α} (closed : opens place = none) : Lies place .locked
  | missing {place : α} (closed : opens place = none) : Lies place .missing

/-- As `Lies`, where the tree has the order of the listings. -/
inductive LiesOrdered : α → Tree → Prop where
  | file (place : α) (size : Nat) : LiesOrdered place (.file size)
  | directory {place : α} {entries : List (CString × Tree)}
    (opened : opens place =
      some ((entries.filter follows).reverse.map fun entry => step place entry.1))
    (emits : emit place = entries.flatMap (one place))
    (inside : ∀ entry ∈ entries, LiesOrdered (step place entry.1) entry.2) :
    LiesOrdered place (.directory entries)
  | locked {place : α} (closed : opens place = none) : LiesOrdered place .locked
  | missing {place : α} (closed : opens place = none) : LiesOrdered place .missing

variable {step one opens emit follows}

theorem visits_all {place : α} (entries : List (CString × Tree))
    (visits : ∀ entry ∈ entries, ∃ done, Visits opens [step place entry.1] done ∧
      (done.flatMap emit).Perm (entry.2.gather step one (step place entry.1))) :
    ∃ done, Visits opens (entries.map fun entry => step place entry.1) done ∧
      (done.flatMap emit).Perm
        (entries.flatMap fun entry => entry.2.gather step one (step place entry.1)) := by
  induction entries with
  | nil => exact ⟨[], .nil, List.Perm.refl _⟩
  | cons entry rest ih =>
    obtain ⟨first, visited, found⟩ := visits entry List.mem_cons_self
    obtain ⟨others, later, all⟩ := ih fun other member => visits other (List.mem_cons_of_mem _ member)
    refine ⟨first ++ others, visited.append later, ?_⟩
    rw [List.flatMap_append, List.flatMap_cons]
    exact found.append all

theorem flatMap_followed {γ : Type} (files : ∀ name tree, (∀ entries, tree ≠ .directory entries) ∨
      follows (name, tree) = true) (below : CString × Tree → List γ)
    (nothing : ∀ entry, (∀ entries, entry.2 ≠ .directory entries) → below entry = [])
    (entries : List (CString × Tree)) : (entries.filter follows).flatMap below =
      entries.flatMap below := by
  induction entries with
  | nil => rfl
  | cons entry rest ih =>
    by_cases followed : follows entry = true
    · rw [List.filter_cons_of_pos followed, List.flatMap_cons, List.flatMap_cons, ih]
    · have none := nothing entry ((files entry.1 entry.2).resolve_right followed)
      rw [List.filter_cons_of_neg followed, List.flatMap_cons, ih, none, List.nil_append]

theorem gather_none (place : α) (entry : CString × Tree)
    (other : ∀ entries, entry.2 ≠ .directory entries) :
    entry.2.gather step one (step place entry.1) = [] := by
  cases shape : entry.2 with
  | directory entries => exact absurd shape (other entries)
  | file | locked | missing => rfl

theorem reads_none (place : α) (entry : CString × Tree)
    (other : ∀ entries, entry.2 ≠ .directory entries) :
    entry.2.reads step (step place entry.1) = [] := by
  cases shape : entry.2 with
  | directory entries => exact absurd shape (other entries)
  | file | locked | missing => rfl

theorem Lies.visits (directories : ∀ name tree, (∀ entries, tree ≠ .directory entries) ∨
      follows (name, tree) = true) (notFiles : ∀ name size, follows (name, .file size) = false)
    {place : α} {tree : Tree} (lies : Lies step one opens emit follows place tree)
    (place_ : ∀ size, tree ≠ .file size) :
    ∃ done, Visits opens [place] done ∧ (done.flatMap emit).Perm (tree.gather step one place) := by
  induction lies with
  | file place size => exact absurd rfl (place_ size)
  | locked closed => exact ⟨[], .closed closed .nil, List.Perm.refl _⟩
  | missing closed => exact ⟨[], .closed closed .nil, List.Perm.refl _⟩
  | @directory place entries listed order opened emits inside ih =>
    have followed : ∃ done,
        Visits opens ((listed.filter follows).reverse.map fun entry => step place entry.1) done ∧
          (done.flatMap emit).Perm ((listed.filter follows).reverse.flatMap fun entry =>
            entry.2.gather step one (step place entry.1)) := by
      apply visits_all
      intro entry member
      have filtered := List.mem_filter.1 (List.mem_reverse.1 member)
      refine ih entry (order.subset filtered.1) fun size same => ?_
      have other := notFiles entry.1 size
      rw [← same] at other
      exact absurd filtered.2 (by simp [other])
    obtain ⟨below, visited, found⟩ := followed
    refine ⟨place :: (below ++ []), .opened opened visited .nil, ?_⟩
    rw [List.append_nil, List.flatMap_cons, emits, Tree.gather, gatherIn_flatMap]
    have unreversed := (List.reverse_perm (listed.filter follows)).flatMap_right
      fun entry => entry.2.gather step one (step place entry.1)
    have together := (found.trans unreversed).append_left (listed.flatMap (one place))
    rw [flatMap_followed directories _ (gather_none place)] at together
    exact together.trans ((List.flatMap_append_perm listed _ _).trans (order.flatMap_right _))

theorem LiesOrdered.lies {place : α} {tree : Tree}
    (lies : LiesOrdered step one opens emit follows place tree) :
    Lies step one opens emit follows place tree := by
  induction lies with
  | file place size => exact .file place size
  | directory opened emits _ ih => exact .directory _ (List.Perm.refl _) opened emits ih
  | locked closed => exact .locked closed
  | missing closed => exact .missing closed

theorem readsIn_flatMap (place : α) (entries : List (CString × Tree)) :
    readsIn step place entries =
      entries.reverse.flatMap fun entry => entry.2.reads step (step place entry.1) := by
  induction entries with
  | nil => rfl
  | cons entry rest ih =>
    rw [readsIn, ih, List.reverse_cons, List.flatMap_append, List.flatMap_singleton]

theorem visits_reads {place : α} (entries : List (CString × Tree))
    (visits : ∀ entry ∈ entries, Visits opens [step place entry.1]
      ((entry.2.reads step (step place entry.1)).map Prod.fst)) :
    Visits opens (entries.map fun entry => step place entry.1)
      ((entries.flatMap fun entry => entry.2.reads step (step place entry.1)).map Prod.fst) := by
  induction entries with
  | nil => exact .nil
  | cons entry rest ih =>
    have later := ih fun other member => visits other (List.mem_cons_of_mem _ member)
    rw [List.flatMap_cons, List.map_append]
    exact (visits entry List.mem_cons_self).append later

theorem LiesOrdered.reads (directories : ∀ name tree, (∀ entries, tree ≠ .directory entries) ∨
      follows (name, tree) = true) (notFiles : ∀ name size, follows (name, .file size) = false)
    {place : α} {tree : Tree} (lies : LiesOrdered step one opens emit follows place tree)
    (place_ : ∀ size, tree ≠ .file size) :
    Visits opens [place] ((tree.reads step place).map Prod.fst) := by
  induction lies with
  | file place size => exact absurd rfl (place_ size)
  | locked closed => exact .closed closed .nil
  | missing closed => exact .closed closed .nil
  | @directory place entries opened emits inside ih =>
    have below : Visits opens
        ((entries.filter follows).reverse.map fun entry => step place entry.1)
        ((entries.reverse.flatMap fun entry =>
          entry.2.reads step (step place entry.1)).map Prod.fst) := by
      rw [← flatMap_followed directories _ (reads_none place), List.filter_reverse]
      apply visits_reads
      intro entry member
      have filtered := List.mem_filter.1 (List.mem_reverse.1 member)
      refine ih entry filtered.1 fun size same => ?_
      have other := notFiles entry.1 size
      rw [← same] at other
      exact absurd filtered.2 (by simp [other])
    rw [Tree.reads, readsIn_flatMap, List.map_cons, ← List.append_nil (List.map _ _)]
    exact .opened opened below .nil

theorem LiesOrdered.emits {place : α} {tree : Tree}
    (lies : LiesOrdered step one opens emit follows place tree) :
    ∀ read ∈ tree.reads step place, (opens read.1).isSome ∧
      emit read.1 = read.2.flatMap (one read.1) := by
  induction lies with
  | file | locked | missing => simp [Tree.reads]
  | directory opened emits _ ih =>
    intro read member
    rw [Tree.reads, readsIn_flatMap] at member
    rcases List.mem_cons.1 member with rfl | member
    · exact ⟨by rw [opened]; rfl, emits⟩
    · obtain ⟨entry, inside, member⟩ := List.mem_flatMap.1 member
      exact ih entry (List.mem_reverse.1 inside) read member

end

end Ptp.Collection
