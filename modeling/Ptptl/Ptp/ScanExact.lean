import Ptptl.Ptp.ScanTree

set_option autoImplicit false

/-! # What a scan adds to a collection -/

namespace Ptp.Collection

open Worklist

/-- A path holds a tree, with the entries of a directory in the order of its names. -/
inductive Holds (fs : FileSystem) : CString → Tree → Prop where
  | file {path : CString} {info : Stat} (stat : fs.stat path = some info)
    (plain : info.directory = false) : Holds fs path (.file info.size)
  | directory {path : CString} {entries : List (CString × Tree)} {names : List CString}
    (isDir : fs.isDir path = true) (read : fs.readdir path = some names)
    (same : names.filter (fun name => !dots name) = entries.map Prod.fst)
    (inside : ∀ entry ∈ entries, Holds fs (join path entry.1) entry.2) :
    Holds fs path (.directory entries)
  | locked {path : CString} (isDir : fs.isDir path = true) (closed : fs.readdir path = none) :
    Holds fs path .locked
  | missing {path : CString} (absent : fs.stat path = none) (closed : fs.readdir path = none) :
    Holds fs path .missing

def isOpened (entry : CString × Tree) : Bool :=
  match entry.2 with
  | .directory _ | .locked => true
  | _ => false

theorem isOpened_directory (name : CString) (tree : Tree) :
    (∀ entries, tree ≠ .directory entries) ∨ isOpened (name, tree) = true := by
  cases tree with
  | directory entries => exact .inr rfl
  | file | locked | missing => exact .inl (by simp)

theorem Holds.isDir_eq {fs : FileSystem} {path : CString} {tree : Tree}
    (holds : Holds fs path tree) (name : CString) : fs.isDir path = isOpened (name, tree) := by
  cases holds with
  | file stat plain => rw [FileSystem.isDir, stat]; exact plain
  | directory isDir => exact isDir
  | locked isDir => exact isDir
  | missing absent => rw [FileSystem.isDir, absent]; rfl

def opens (fs : FileSystem) (path : CString) : Option (List CString) :=
  (fs.readdir path).map fun names =>
    ((names.filter fun name => !dots name && fs.isDir (join path name)).map (join path)).reverse

theorem scanDirs_walk (fs : FileSystem) (fuel : Nat) : ∀ (free : Nat) (stack done : List CString),
    scanDirs fs fuel free stack done = walkWithin (opens fs) fuel free stack done := by
  induction fuel with
  | zero =>
    intro free stack done
    cases stack <;> rfl
  | succ fuel ih =>
    intro free stack done
    cases stack with
    | nil => rfl
    | cons path stack =>
      cases free with
      | zero => exact ih 0 stack done
      | succ free =>
        rw [scanDirs, walkWithin, FileSystem.opendir]
        cases read : fs.readdir path with
        | none => simp only [opens, read, Option.map_none, ih]
        | some names =>
          simp only [opens, read, Option.map_some, ih, List.foldl_flip_cons_eq_append]

def scanEntry (ulong : Nat) (ext : Option CString) (path : CString) (entry : CString × Tree) :
    List (CString × Nat) :=
  match entry.2 with
  | .file size => if cmpExt entry.1 ext then [(join path entry.1, size % ulong)] else []
  | _ => []

theorem FileSystem.isDir_iff {fs : FileSystem} {path : CString} :
    fs.isDir path = true ↔ ∃ info, fs.stat path = some info ∧ info.directory = true := by
  unfold FileSystem.isDir
  cases fs.stat path <;> simp

theorem scanName_entry {ulong : Nat} {fs : FileSystem} {ext : Option CString} {path name : CString}
    {tree : Tree} (plain : dots name = false) (holds : Holds fs (join path name) tree) :
    (scanName ulong fs ext path name).toList = scanEntry ulong ext path (name, tree) := by
  have skipped (isDir : fs.isDir (join path name) = true) :
      scanName ulong fs ext path name = none := by
    obtain ⟨info, stat, directory⟩ := FileSystem.isDir_iff.1 isDir
    rw [scanName, stat]
    simp only [directory, if_true, ite_self]
  cases holds with
  | file stat file =>
    rw [scanName, stat, plain, Bool.false_or]
    simp only [file, scanEntry]
    cases cmpExt name ext <;> rfl
  | directory isDir => rw [skipped isDir]; rfl
  | locked isDir => rw [skipped isDir]; rfl
  | missing absent =>
    rw [scanName, absent]
    simp only [ite_self]
    rfl

theorem filterMap_named {β : Type} (scan : CString → Option β) (names : List CString)
    (skipped : ∀ name ∈ names, dots name = true → scan name = none) :
    names.filterMap scan = (names.filter fun name => !dots name).filterMap scan := by
  rw [List.filterMap_filter]
  apply List.filterMap_congr
  intro name member
  cases plain : dots name
  · simp
  · simp [skipped name member plain]

theorem filter_named (isDir : CString → Bool) (names : List CString)
    {listed : List (CString × Tree)}
    (same : names.filter (fun name => !dots name) = listed.map Prod.fst) (follows : CString × Tree → Bool)
    (followed : ∀ entry ∈ listed, isDir entry.1 = follows entry) :
    (names.filter fun name => !dots name && isDir name) = (listed.filter follows).map Prod.fst := by
  have apart : (names.filter fun name => !dots name && isDir name) =
      (names.filter fun name => !dots name).filter isDir := by
    rw [List.filter_filter]
    exact List.filter_congr fun _ _ => Bool.and_comm _ _
  rw [apart, same, List.filter_map]
  congr 1
  exact List.filter_congr followed

/-- What `ScanDir` adds of a directory that it can open. -/
def emits (ulong : Nat) (fs : FileSystem) (ext : Option CString) (path : CString) :
    List (CString × Nat) := (scanDir ulong fs ext 1 path).1

theorem Holds.lies (ulong : Nat) {fs : FileSystem} (ext : Option CString) {path : CString}
    {tree : Tree} (holds : Holds fs path tree) :
    LiesOrdered join (scanEntry ulong ext) (opens fs) (emits ulong fs ext) isOpened path tree := by
  induction holds with
  | file stat plain => exact .file _ _
  | locked isDir closed => exact .locked (by rw [opens, closed]; rfl)
  | missing absent closed => exact .missing (by rw [opens, closed]; rfl)
  | @directory path entries names isDir read same inside ih =>
    apply LiesOrdered.directory
    · have directories := filter_named (fun name => fs.isDir (join path name)) names same isOpened
        fun entry member => (inside entry member).isDir_eq entry.1
      rw [opens, read, Option.map_some, directories, List.map_map, List.map_reverse]
      rfl
    · have named (entry : CString × Tree) (member : entry ∈ entries) : dots entry.1 = false := by
        have kept : entry.1 ∈ names.filter fun name => !dots name := by
          rw [same]
          exact List.mem_map_of_mem member
        simpa using (List.mem_filter.1 kept).2
      rw [emits, scanDir, FileSystem.opendir, read]
      simp only
      rw [filterMap_named, same, List.filterMap_map, List.filterMap_eq_flatMap_toList]
      · apply List.flatMap_congr
        intro entry member
        exact scanName_entry (named entry member) (inside entry member)
      · intro name _ dot
        simp only [scanName, dot, Bool.true_or, if_true]
    · exact ih

theorem scanDone_correct {ulong : Nat} {fs : FileSystem} {ext : Option CString}
    (done : List CString) (opened : ∀ path ∈ done, (opens fs path).isSome) : ∀ free,
    scanDone ulong fs ext free done =
      ((done.take free).flatMap (emits ulong fs ext), free - done.length) := by
  induction done with
  | nil => simp [scanDone]
  | cons path done ih =>
    intro free
    obtain ⟨here, later⟩ := List.forall_mem_cons.1 opened
    rw [scanDone, scanDir]
    cases free with
    | zero => simp [FileSystem.opendir, ih later]
    | succ free =>
      rw [opens, Option.isSome_map] at here
      obtain ⟨names, read⟩ := Option.isSome_iff_exists.1 here
      simp [FileSystem.opendir, emits, scanDir, read, ih later]

theorem walk_files {α : Type} {step : α → CString → α}
    {one : α → CString × Tree → List (CString × Nat)} {opens : α → Option (List α)}
    {emit : α → List (CString × Nat)} {follows : CString × Tree → Bool} {place : α} {tree : Tree}
    (plain : ∀ place name tree, (∀ size, tree ≠ .file size) → one place (name, tree) = [])
    (directories : ∀ name entries, follows (name, .directory entries) = true)
    (notFiles : ∀ name size, follows (name, .file size) = false)
    (lies : Lies step one opens emit follows place tree) (root : ∀ size, tree ≠ .file size) :
    ∃ enough, ∀ fuel ≥ enough, ∃ done, walk opens fuel [place] [] = some done ∧
      (done.flatMap emit).Perm (tree.files.flatMap fun file =>
        one (file.dir.foldl step place) (file.name, .file file.size)) := by
  have followed (name : CString) (tree : Tree) :
      (∀ entries, tree ≠ .directory entries) ∨ follows (name, tree) = true := by
    cases tree with
    | directory entries => exact .inr (directories name entries)
    | file | locked | missing => exact .inl (by simp)
  obtain ⟨done, visits, found⟩ := lies.visits followed notFiles root
  obtain ⟨enough, walks⟩ := visits.walk_correct
  rw [Tree.gather_files step one plain] at found
  exact ⟨enough, fun fuel fueled => ⟨done, walks fuel fueled, found⟩⟩

theorem scanEntry_plain {ulong : Nat} {ext : Option CString} (place name : CString) (tree : Tree)
    (other : ∀ size, tree ≠ .file size) : scanEntry ulong ext place (name, tree) = [] := by
  cases tree with
  | file size => exact absurd rfl (other size)
  | directory | locked | missing => rfl

def readFiles (ulong : Nat) (ext : Option CString) (read : CString × List (CString × Tree)) :
    List (CString × Nat) := read.2.flatMap (scanEntry ulong ext read.1)

/-- Of the directories, as many are scanned as there are descriptors left when all are open. -/
theorem Holds.scan {ulong : Nat} {fs : FileSystem} {parent : Dir} {tree : Tree}
    (holds : Holds fs parent.path tree) (root : ∀ size, tree ≠ .file size) (free : Nat) :
    ∃ enough, ∀ fuel ≥ enough, scan ulong fs fuel free parent =
      some (((tree.reads join parent.path).take (free - (tree.reads join parent.path).length)).flatMap
        (readFiles ulong parent.ext), free - 2 * (tree.reads join parent.path).length) := by
  have lies := holds.lies ulong parent.ext
  obtain ⟨enough, walks⟩ := (lies.reads isOpened_directory (fun _ _ => rfl) root).walk_correct
  refine ⟨enough, fun fuel fueled => ?_⟩
  have emitted := lies.emits
  generalize tree.reads join parent.path = reads at *
  rw [Collection.scan, scanDirs_walk, walkWithin_correct free (walks fuel fueled)]
  simp only [List.length_nil, Nat.zero_add, Nat.sub_zero, List.length_map]
  rw [scanDone_correct]
  · rw [List.take_take, ← List.map_take, List.flatMap_map, List.length_take, List.length_map]
    congr 2
    · rw [Nat.min_eq_left (Nat.sub_le _ _)]
      apply List.flatMap_congr
      intro read member
      exact (emitted read (List.mem_of_mem_take member)).2
    · omega
  · intro path member
    rw [← List.map_take] at member
    obtain ⟨read, inside, rfl⟩ := List.mem_map.1 member
    exact (emitted read (List.mem_of_mem_take inside)).1

theorem Holds.files {ulong : Nat} {fs : FileSystem} {parent : Dir} {tree : Tree}
    (holds : Holds fs parent.path tree) (root : ∀ size, tree ≠ .file size) :
    ((tree.reads join parent.path).flatMap (readFiles ulong parent.ext)).Perm
      ((tree.files.filter fun file => cmpExt file.name parent.ext).map
        fun file => (file.path join parent.path, file.size % ulong)) := by
  have lies := holds.lies ulong parent.ext
  obtain ⟨done, visits, found⟩ := lies.lies.visits isOpened_directory (fun _ _ => rfl) root
  rw [visits.unique (lies.reads isOpened_directory (fun _ _ => rfl) root), List.flatMap_map,
    Tree.gather_files _ _ scanEntry_plain] at found
  have emitted : (tree.reads join parent.path).flatMap (readFiles ulong parent.ext) =
      (tree.reads join parent.path).flatMap fun read => emits ulong fs parent.ext read.1 := by
    apply List.flatMap_congr
    intro read member
    exact (lies.emits read member).2.symm
  have given : (tree.files.flatMap fun file => scanEntry ulong parent.ext
        (file.dir.foldl join parent.path) (file.name, .file file.size)) =
      (tree.files.filter fun file => cmpExt file.name parent.ext).map
        fun file => (file.path join parent.path, file.size % ulong) := by
    induction tree.files with
    | nil => rfl
    | cons file files ih =>
      rw [List.flatMap_cons, ih, List.filter_cons]
      simp only [scanEntry]
      split <;> rfl
  rw [emitted]
  exact given ▸ found

/-! ## The other branch -/

/-- The names from `FindFirstFile` on, the sizes that come with them, and whether
`GetFileAttributes` has the bit of a directory, which is also set when there are no attributes. -/
structure WinSystem where
  find : CString → Option (List CString)
  size : CString → Nat
  directory : CString → Bool

/-- `sprintf(path, "%s\\%s", ..)`. -/
def winJoin (path name : CString) : CString :=
  ⟨path.val ++ 92 :: name.val, by
    intro member
    rcases List.mem_append.1 member with front | back
    · exact path.property front
    · rcases List.mem_cons.1 back with zero | back
      · exact absurd zero (by decide)
      · exact name.property back⟩

def WinSystem.list (fs : WinSystem) (path : CString) : Option (List CString) :=
  fs.find (winJoin path ⟨ascii "*.*", by decide⟩)

def winNext (parent d : Dir) (name : CString) : Dir where
  path := winJoin d.path name
  ext := none
  context := parent.context

def winScanDirs (fs : WinSystem) (parent : Dir) : Nat → List Dir → List Dir → Option (List Dir)
  | _, [], done => some done
  | 0, _ :: _, _ => none
  | fuel + 1, d :: scan, done =>
    match fs.list d.path with
    | none => winScanDirs fs parent fuel scan done
    | some names =>
      let dirs := names.filter fun name => !dots name && fs.directory (winJoin d.path name)
      winScanDirs fs parent fuel (dirs.foldl (fun scan name => winNext parent d name :: scan) scan)
        (done ++ [d])

/-- The file for a name; the size is `nFileSizeLow`. -/
def winScanName (fs : WinSystem) (d : Dir) (name : CString) : Option (CString × Nat) :=
  let path := winJoin d.path name
  if !fs.directory path && cmpExt name d.ext then some (path, fs.size path % 4294967296) else none

def winScanDir (fs : WinSystem) (d : Dir) : List (CString × Nat) :=
  match fs.list d.path with
  | none => []
  | some names => names.filterMap (winScanName fs d)

def winScan (fs : WinSystem) (fuel : Nat) (parent : Dir) : Option (List (CString × Nat)) :=
  match winScanDirs fs parent fuel [parent] [] with
  | none => none
  | some done => some (done.flatMap (winScanDir fs))

/-- As `Holds`; the names `.` and `..` have the bit too. -/
inductive WinHolds (fs : WinSystem) : CString → Tree → Prop where
  | file {path : CString} (plain : fs.directory path = false) : WinHolds fs path (.file (fs.size path))
  | directory {path : CString} {entries : List (CString × Tree)} {names : List CString}
    (listed : List (CString × Tree)) (order : listed.Perm entries)
    (isDir : fs.directory path = true) (read : fs.list path = some names)
    (same : names.filter (fun name => !dots name) = listed.map Prod.fst)
    (dotted : ∀ name ∈ names, dots name = true → fs.directory (winJoin path name) = true)
    (inside : ∀ entry ∈ entries, WinHolds fs (winJoin path entry.1) entry.2) :
    WinHolds fs path (.directory entries)
  | locked {path : CString} (isDir : fs.directory path = true) (closed : fs.list path = none) :
    WinHolds fs path .locked
  | missing {path : CString} (absent : fs.directory path = true) (closed : fs.list path = none) :
    WinHolds fs path .missing

def isWinOpened (entry : CString × Tree) : Bool :=
  match entry.2 with
  | .file _ => false
  | _ => true

theorem WinHolds.directory_eq {fs : WinSystem} {path : CString} {tree : Tree}
    (holds : WinHolds fs path tree) (name : CString) :
    fs.directory path = isWinOpened (name, tree) := by
  cases holds with
  | file plain => exact plain
  | directory _ _ isDir => exact isDir
  | locked isDir => exact isDir
  | missing absent => exact absent

def winOpens (fs : WinSystem) (parent d : Dir) : Option (List Dir) :=
  (fs.list d.path).map fun names =>
    ((names.filter fun name => !dots name && fs.directory (winJoin d.path name)).map
      (winNext parent d)).reverse

theorem winScanDirs_walk (fs : WinSystem) (parent : Dir) (fuel : Nat) : ∀ stack done : List Dir,
    winScanDirs fs parent fuel stack done = walk (winOpens fs parent) fuel stack done := by
  induction fuel with
  | zero =>
    intro stack done
    cases stack <;> rfl
  | succ fuel ih =>
    intro stack done
    cases stack with
    | nil => rfl
    | cons d stack =>
      rw [winScanDirs, walk]
      cases read : fs.list d.path with
      | none => simp only [winOpens, read, Option.map_none, ih]
      | some names =>
        simp only [winOpens, read, Option.map_some, ih, List.foldl_flip_cons_eq_append]

def winScanEntry (d : Dir) (entry : CString × Tree) : List (CString × Nat) :=
  match entry.2 with
  | .file size => if cmpExt entry.1 d.ext then [(winJoin d.path entry.1, size % 4294967296)] else []
  | _ => []

theorem winScanName_entry {fs : WinSystem} {d : Dir} {name : CString} {tree : Tree}
    (holds : WinHolds fs (winJoin d.path name) tree) :
    (winScanName fs d name).toList = winScanEntry d (name, tree) := by
  have skipped (isDir : fs.directory (winJoin d.path name) = true) : winScanName fs d name = none := by
    simp only [winScanName, isDir, Bool.not_true, Bool.false_and, Bool.false_eq_true, if_false]
  cases holds with
  | file plain =>
    simp only [winScanName, winScanEntry, plain, Bool.not_false, Bool.true_and]
    cases cmpExt name d.ext <;> rfl
  | directory _ _ isDir => rw [skipped isDir]; rfl
  | locked isDir => rw [skipped isDir]; rfl
  | missing absent => rw [skipped absent]; rfl

theorem WinHolds.lies {fs : WinSystem} (parent : Dir) {path : CString} {tree : Tree}
    (holds : WinHolds fs path tree) : ∀ d : Dir, d.path = path →
    Lies (winNext parent) winScanEntry (winOpens fs parent) (winScanDir fs) isWinOpened d tree := by
  induction holds with
  | file plain => exact fun _ _ => .file _ _
  | locked isDir closed => exact fun d here => .locked (by rw [winOpens, here, closed]; rfl)
  | missing absent closed => exact fun d here => .missing (by rw [winOpens, here, closed]; rfl)
  | @directory path entries names listed order isDir read same dotted inside ih =>
    rintro d rfl
    apply Lies.directory listed order
    · have directories := filter_named (fun name => fs.directory (winJoin d.path name)) names same
        isWinOpened fun entry member => (inside entry (order.subset member)).directory_eq entry.1
      rw [winOpens, read, Option.map_some, directories, List.map_map, List.map_reverse]
      rfl
    · rw [winScanDir, read]
      simp only
      rw [filterMap_named, same, List.filterMap_map, List.filterMap_eq_flatMap_toList]
      · apply List.flatMap_congr
        intro entry member
        exact winScanName_entry (inside entry (order.subset member))
      · intro name member dot
        simp only [winScanName, dotted name member dot, Bool.not_true, Bool.false_and,
          Bool.false_eq_true, if_false]
    · intro entry member
      exact ih entry member _ rfl

theorem winNext_fold (parent : Dir) (dir : List CString) : ∀ d : Dir,
    (dir.foldl (winNext parent) d).path = dir.foldl winJoin d.path ∧
      (dir.foldl (winNext parent) d).ext = if dir = [] then d.ext else none := by
  induction dir with
  | nil => exact fun d => ⟨rfl, rfl⟩
  | cons name dir ih =>
    intro d
    rw [List.foldl_cons, List.foldl_cons, if_neg (by simp)]
    refine ⟨(ih _).1, ?_⟩
    rw [(ih _).2]
    exact ite_self _

theorem WinHolds.scan {fs : WinSystem} {parent : Dir} {tree : Tree}
    (holds : WinHolds fs parent.path tree) (root : ∀ size, tree ≠ .file size) :
    ∃ enough, ∀ fuel ≥ enough, ∃ files, winScan fs fuel parent = some files ∧
      files.Perm ((tree.files.filter fun file => file.dir ≠ [] || cmpExt file.name parent.ext).map
        fun file => (file.path winJoin parent.path, file.size % 4294967296)) := by
  have plain (d : Dir) (name : CString) (tree : Tree) (other : ∀ size, tree ≠ .file size) :
      winScanEntry d (name, tree) = [] := by
    cases tree with
    | file size => exact absurd rfl (other size)
    | directory | locked | missing => rfl
  obtain ⟨enough, walks⟩ := walk_files plain (fun _ _ => rfl) (fun _ _ => rfl)
    (holds.lies parent parent rfl) root
  refine ⟨enough, fun fuel fueled => ?_⟩
  obtain ⟨done, walked, found⟩ := walks fuel fueled
  refine ⟨done.flatMap (winScanDir fs), ?_, ?_⟩
  · rw [winScan, winScanDirs_walk, walked]
  · have given : (tree.files.flatMap fun file => winScanEntry
          (file.dir.foldl (winNext parent) parent) (file.name, .file file.size)) =
        (tree.files.filter fun file => file.dir ≠ [] || cmpExt file.name parent.ext).map
          fun file => (file.path winJoin parent.path, file.size % 4294967296) := by
      induction tree.files with
      | nil => rfl
      | cons file files ih =>
        rw [List.flatMap_cons, ih, List.filter_cons]
        simp only [winScanEntry, winNext_fold]
        by_cases top : file.dir = []
        · rw [if_pos top, top]
          simp only [ne_eq, not_true_eq_false, decide_false, Bool.false_or]
          split
          · rw [List.map_cons, Found.path, top]
            rfl
          · rfl
        · rw [if_neg top]
          simp only [ne_eq, top, not_false_eq_true, decide_true, Bool.true_or, if_true]
          rfl
    exact given ▸ found

/-! ## The entries -/

def Entry.unnumbered (entry : Entry) : Entry := { entry with id := 0 }

/-- The collection after `ScanDir` has added files. -/
def addScanned (ulong : Nat) (parent : Dir) (files : List (CString × Nat)) (collect : Collection) :
    Collection :=
  files.foldl (fun collect file => collect.add ulong (scanned parent file)) collect

theorem addScanned_entries (ulong : Nat) (parent : Dir) (files : List (CString × Nat)) :
    ∀ collect : Collection, ∃ added,
      (collect.addScanned ulong parent files).entries = added ++ collect.entries ∧
      added.map Entry.unnumbered = (files.map (scanned parent)).reverse := by
  induction files with
  | nil => exact fun collect => ⟨[], rfl, rfl⟩
  | cons file files ih =>
    intro collect
    obtain ⟨added, entries, same⟩ := ih (collect.add ulong (scanned parent file))
    refine ⟨added ++ [{ scanned parent file with id := collect.id }], ?_, ?_⟩
    · rw [addScanned, List.foldl_cons]
      change (addScanned ulong parent files _).entries = _
      rw [entries, List.append_assoc]
      rfl
    · rw [List.map_append, same]
      simp only [List.map_cons, List.reverse_cons]
      rfl

def Adds (ulong : Nat) (parent : Dir) (scan : Nat → Option (List (CString × Nat)))
    (files : List (CString × Nat)) : Prop :=
  ∃ enough, ∀ fuel ≥ enough, ∃ found, scan fuel = some found ∧ ∀ collect : Collection, ∃ added,
    (collect.addScanned ulong parent found).entries = added ++ collect.entries ∧
    (added.map Entry.unnumbered).Perm (files.map (scanned parent))

theorem scanned_injective (parent : Dir) : Function.Injective (scanned parent) := by
  intro first second same
  have content := congrArg Entry.content same
  simp only [scanned, Content.file.injEq] at content
  exact Prod.ext content.1 content.2

theorem adds_iff {ulong : Nat} {parent : Dir} {scan : Nat → Option (List (CString × Nat))}
    {given files : List (CString × Nat)}
    (scans : ∃ enough, ∀ fuel ≥ enough, ∃ found, scan fuel = some found ∧ found.Perm given) :
    Adds ulong parent scan files ↔ given.Perm files := by
  obtain ⟨enough, scans⟩ := scans
  constructor
  next =>
    intro adds
    obtain ⟨other, adds⟩ := adds
    obtain ⟨found, scanned', order⟩ := scans (max enough other) (Nat.le_max_left _ _)
    obtain ⟨same, again, entries⟩ := adds (max enough other) (Nat.le_max_right _ _)
    obtain rfl : found = same := Option.some.inj (scanned'.symm.trans again)
    obtain ⟨added, whole, wanted⟩ := entries {}
    obtain ⟨others, whole', made⟩ := addScanned_entries ulong parent found {}
    obtain rfl : added = others := List.append_cancel_right (whole.symm.trans whole')
    rw [made] at wanted
    have through := (List.reverse_perm _).symm.trans wanted
    exact order.symm.trans ((List.map_perm_map_iff (scanned_injective parent)).1 through)
  next =>
    intro order
    refine ⟨enough, fun fuel fueled => ?_⟩
    obtain ⟨found, scanned', same⟩ := scans fuel fueled
    refine ⟨found, scanned', fun collect => ?_⟩
    obtain ⟨added, whole, made⟩ := addScanned_entries ulong parent found collect
    refine ⟨added, whole, ?_⟩
    rw [made]
    exact (List.reverse_perm _).trans ((same.trans order).map _)

def wantedFiles (join : CString → CString → CString) (parent : Dir) (tree : Tree) :
    List (CString × Nat) :=
  (tree.files.filter fun file => cmpExt file.name parent.ext).map
    fun file => (file.path join parent.path, file.size)

structure Uniform (parent : Dir) (tree : Tree) : Prop where
  sizes : ∀ file ∈ tree.files, cmpExt file.name parent.ext = true → file.size < 4294967296
  below : ∀ file ∈ tree.files, file.dir ≠ [] → cmpExt file.name parent.ext = true

theorem Uniform.of_perm {parent : Dir} {tree : Tree}
    (order : ((tree.files.filter fun file => file.dir ≠ [] || cmpExt file.name parent.ext).map
      fun file => (file.path winJoin parent.path, file.size % 4294967296)).Perm
        (wantedFiles winJoin parent tree)) : Uniform parent tree := by
  have within : (tree.files.filter fun file => cmpExt file.name parent.ext).Sublist
      (tree.files.filter fun file => file.dir ≠ [] || cmpExt file.name parent.ext) := by
    apply List.monotone_filter_right
    intro file allowed
    simp [allowed]
  have length := order.length_eq
  rw [wantedFiles, List.length_map, List.length_map] at length
  have equal := within.eq_of_length length.symm
  have sizes := order.map Prod.snd
  rw [← equal, wantedFiles, List.map_map, List.map_map] at sizes
  constructor
  · intro file member allowed
    have kept := sizes.symm.subset (List.mem_map_of_mem (List.mem_filter.2 ⟨member, allowed⟩))
    obtain ⟨other, -, same⟩ := List.mem_map.1 kept
    have small : other.size % 4294967296 < 4294967296 := Nat.mod_lt _ (by decide)
    change other.size % 4294967296 = file.size at same
    omega
  · intro file member below
    have all : file ∈ tree.files.filter
        fun file => file.dir ≠ [] || cmpExt file.name parent.ext :=
      List.mem_filter.2 ⟨member, by simp [below]⟩
    rw [← equal] at all
    exact (List.mem_filter.1 all).2

/-- The directories that are scanned when the descriptors run out, of a tree that is read with so
many, have all files that the list allows. -/
def Reaches (free : Nat) (parent : Dir) (tree : Tree) : Prop :=
  ∀ read ∈ (tree.reads join parent.path).drop (free - (tree.reads join parent.path).length),
    ∀ entry ∈ read.2, ∀ size, entry.2 = .file size → cmpExt entry.1 parent.ext = false

theorem reaches_enough {free : Nat} {parent : Dir} {tree : Tree}
    (enough : 2 * (tree.reads join parent.path).length ≤ free) : Reaches free parent tree := by
  rw [Reaches, List.drop_of_length_le (by omega)]
  simp

theorem readFiles_nil {ulong : Nat} {ext : Option CString}
    {read : CString × List (CString × Tree)} : readFiles ulong ext read = [] ↔
      ∀ entry ∈ read.2, ∀ size, entry.2 = .file size → cmpExt entry.1 ext = false := by
  rw [readFiles, List.flatMap_eq_nil_iff]
  refine forall₂_congr fun entry member => ?_
  obtain ⟨name, tree⟩ := entry
  cases tree with
  | file size => simp [scanEntry]
  | directory | locked | missing => simp [scanEntry]

theorem reaches_iff {ulong free : Nat} {parent : Dir} {tree : Tree} :
    Reaches free parent tree ↔
      ((tree.reads join parent.path).drop (free - (tree.reads join parent.path).length)).flatMap
        (readFiles ulong parent.ext) = [] := by
  rw [List.flatMap_eq_nil_iff]
  exact forall₂_congr fun read _ => readFiles_nil.symm

theorem wantedFiles_mod {bound : Nat} (wide : 4294967296 ≤ bound) {parent : Dir} {tree : Tree}
    (uniform : Uniform parent tree) (join : CString → CString → CString) :
    ((tree.files.filter fun file => cmpExt file.name parent.ext).map
      fun file => (file.path join parent.path, file.size % bound)) = wantedFiles join parent tree := by
  apply List.map_congr_left
  intro file member
  have allowed := List.mem_filter.1 member
  rw [Nat.mod_eq_of_lt (Nat.lt_of_lt_of_le (uniform.sizes file allowed.1 allowed.2) wide)]

theorem Holds.adds_iff {ulong : Nat} (wide : 4294967296 ≤ ulong) {fs : FileSystem} {parent : Dir}
    {tree : Tree} (root : ∀ size, tree ≠ .file size) (holds : Holds fs parent.path tree)
    (uniform : Uniform parent tree) (free : Nat) :
    Adds ulong parent (fun fuel => (Collection.scan ulong fs fuel free parent).map Prod.fst)
      (wantedFiles join parent tree) ↔ Reaches free parent tree := by
  obtain ⟨enough, scans⟩ := @Holds.scan ulong fs parent tree holds root free
  have found := @Holds.files ulong fs parent tree holds root
  rw [wantedFiles_mod wide uniform] at found
  rw [@reaches_iff ulong, Collection.adds_iff ⟨enough, fun fuel fueled =>
    ⟨_, by rw [scans fuel fueled]; rfl, List.Perm.refl _⟩⟩]
  generalize tree.reads join parent.path = reads at *
  generalize free - reads.length = left at *
  have split : reads.flatMap (readFiles ulong parent.ext) =
      (reads.take left).flatMap (readFiles ulong parent.ext) ++
        (reads.drop left).flatMap (readFiles ulong parent.ext) := by
    rw [← List.flatMap_append, List.take_append_drop]
  constructor
  next =>
    intro order
    have lengths := found.length_eq
    rw [split, List.length_append, order.length_eq] at lengths
    exact List.eq_nil_of_length_eq_zero (by omega)
  next =>
    intro none
    rw [none, List.append_nil] at split
    exact split ▸ found

theorem scan_exact_iff {ulong : Nat} (wide : 4294967296 ≤ ulong) {fs : FileSystem} {win : WinSystem}
    {parent : Dir} {tree : Tree} (root : ∀ size, tree ≠ .file size)
    (holds : Holds fs parent.path tree) (winHolds : WinHolds win parent.path tree) (free : Nat) :
    (Adds ulong parent (fun fuel => (scan ulong fs fuel free parent).map Prod.fst)
        (wantedFiles join parent tree) ∧
      Adds 4294967296 parent (fun fuel => winScan win fuel parent)
        (wantedFiles winJoin parent tree)) ↔ Uniform parent tree ∧ Reaches free parent tree := by
  rw [adds_iff (winHolds.scan root)]
  have filters (uniform : Uniform parent tree) :
      (tree.files.filter fun file => file.dir ≠ [] || cmpExt file.name parent.ext) =
        tree.files.filter fun file => cmpExt file.name parent.ext := by
    apply List.filter_congr
    intro file member
    by_cases top : file.dir = []
    · simp [top]
    · rw [uniform.below file member top, Bool.or_true]
  constructor
  next =>
    rintro ⟨posix, windows⟩
    have uniform := Uniform.of_perm windows
    exact ⟨uniform, (holds.adds_iff wide root uniform free).1 posix⟩
  next =>
    rintro ⟨uniform, reaches⟩
    refine ⟨(holds.adds_iff wide root uniform free).2 reaches, ?_⟩
    rw [filters uniform, wantedFiles_mod (Nat.le_refl _) uniform]

/-! ## A file in a subdirectory -/

def sharedDir : CString := ⟨ascii "d", by decide⟩
def innerDir : CString := ⟨ascii "s", by decide⟩
def innerFile : CString := ⟨ascii "b.txt", by decide⟩

def innerTree : Tree := .directory [(innerDir, .directory [(innerFile, .file 5)])]

def innerFs : FileSystem where
  readdir path :=
    if path = sharedDir then some [innerDir]
    else if path = join sharedDir innerDir then some [innerFile] else none
  stat path :=
    if path = join (join sharedDir innerDir) innerFile then some ⟨false, 5⟩ else some ⟨true, 0⟩

def innerWin : WinSystem where
  find pattern :=
    if pattern = winJoin sharedDir ⟨ascii "*.*", by decide⟩ then some [innerDir]
    else if pattern = winJoin (winJoin sharedDir innerDir) ⟨ascii "*.*", by decide⟩ then
      some [innerFile]
    else none
  size _ := 5
  directory path := path ≠ winJoin (winJoin sharedDir innerDir) innerFile

theorem innerFs_holds : Holds innerFs sharedDir innerTree := by
  apply @Holds.directory innerFs sharedDir _ [innerDir]
  · decide +kernel
  · decide +kernel
  · rfl
  · intro entry member
    obtain rfl := List.mem_singleton.1 member
    apply @Holds.directory innerFs _ _ [innerFile]
    · decide +kernel
    · decide +kernel
    · rfl
    · intro entry member
      obtain rfl := List.mem_singleton.1 member
      exact @Holds.file innerFs _ ⟨false, 5⟩ (by simp [innerFs]) rfl

theorem innerWin_holds : WinHolds innerWin sharedDir innerTree := by
  apply @WinHolds.directory innerWin sharedDir _ [innerDir] _ (List.Perm.refl _)
  · decide +kernel
  · decide +kernel
  · rfl
  · decide +kernel
  · intro entry member
    obtain rfl := List.mem_singleton.1 member
    apply @WinHolds.directory innerWin _ _ [innerFile] _ (List.Perm.refl _)
    · decide +kernel
    · decide +kernel
    · rfl
    · decide +kernel
    · intro entry member
      obtain rfl := List.mem_singleton.1 member
      exact .file (by decide +kernel)

theorem innerTree_files : innerTree.files = [⟨[innerDir], innerFile, 5⟩] := by
  simp [innerTree, Tree.files, filesIn, Found.under]

def innerParent (ext : String) (nul : 0 ∉ ascii ext) : Dir where
  path := sharedDir
  ext := some ⟨ascii ext, nul⟩
  context := some 1

theorem scan_exact_inner :
    (4294967296 ≤ 4294967296 ∧ (∀ size, innerTree ≠ .file size) ∧
      Holds innerFs sharedDir innerTree ∧ WinHolds innerWin sharedDir innerTree) ∧
    let parent := innerParent "txt" (by decide)
    Adds 4294967296 parent (fun fuel => (scan 4294967296 innerFs fuel 4 parent).map Prod.fst)
        (wantedFiles join parent innerTree) ∧
      Adds 4294967296 parent (fun fuel => winScan innerWin fuel parent)
        (wantedFiles winJoin parent innerTree) := by
  have root (size : Nat) : innerTree ≠ .file size := by simp [innerTree]
  refine ⟨⟨Nat.le_refl _, root, innerFs_holds, innerWin_holds⟩, ?_⟩
  apply (scan_exact_iff (Nat.le_refl _) root innerFs_holds innerWin_holds 4).2
  have reads : (innerTree.reads join sharedDir).length = 2 := by
    simp [innerTree, Tree.reads, readsIn]
  refine ⟨?_, reaches_enough (by simp [innerParent, reads])⟩
  constructor
  · intro file member _
    rw [innerTree_files] at member
    obtain rfl := List.mem_singleton.1 member
    decide
  · intro file member _
    rw [innerTree_files] at member
    obtain rfl := List.mem_singleton.1 member
    decide +kernel

/-- A list that does not allow it: only the `WIN32` branch adds the file. -/
theorem scan_other_branch : ¬ ∀ (fs : FileSystem) (win : WinSystem) (free : Nat) (parent : Dir)
    (tree : Tree), (∀ size, tree ≠ .file size) → Holds fs parent.path tree → WinHolds win parent.path tree →
    Adds 4294967296 parent (fun fuel => (scan 4294967296 fs fuel free parent).map Prod.fst)
        (wantedFiles join parent tree) ∧
      Adds 4294967296 parent (fun fuel => winScan win fuel parent)
        (wantedFiles winJoin parent tree) := by
  intro always
  have root (size : Nat) : innerTree ≠ .file size := by simp [innerTree]
  have both := always innerFs innerWin 4 (innerParent "jpg" (by decide)) innerTree root
    innerFs_holds innerWin_holds
  have scans := @WinHolds.scan innerWin (innerParent "jpg" (by decide)) innerTree innerWin_holds root
  have order := (adds_iff scans).1 both.2
  have member : (⟨[innerDir], innerFile, 5⟩ : Found) ∈ innerTree.files := by
    rw [innerTree_files]
    exact List.mem_singleton_self _
  have allowed := (Uniform.of_perm order).below _ member (by simp)
  exact absurd allowed (by decide +kernel)

end Ptp.Collection
