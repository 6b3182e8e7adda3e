import Ptptl.Ptp.Collection

set_option autoImplicit false

/-! # The files that a scan finds -/

namespace Ptp.Collection

structure Stat where
  directory : Bool
  size : Nat

/-- `opendir` with `readdir`, and `stat`, as they are during a scan. -/
structure FileSystem where
  readdir : CString → Option (List CString)
  stat : CString → Option Stat

def semicolon : Byte := 59
def dot : Byte := 46

def cmpExtItem (name item : Bytes) : Bool :=
  item.length < name.length && name[name.length - item.length - 1]? = some dot &&
    (name.drop (name.length - item.length)).map toupper = item.map toupper

/-- Whether `CmpExt(name, ext)` is 0. Empty extensions are skipped but a leading one. -/
def cmpExt (name : CString) (ext : Option CString) : Bool :=
  match ext with
  | none => true
  | some ext =>
    if ext.val = [] then true
    else
      match ext.val.splitOn semicolon with
      | [] => false
      | first :: rest => (first :: rest.filter (· ≠ [])).any (cmpExtItem name.val)

example : cmpExt ⟨ascii "a.TXT", by decide⟩ (some ⟨ascii "jpg;txt;", by decide⟩) = true := by
  decide +kernel

/-- `sprintf(path, "%s/%s", ..)`. -/
def join (path name : CString) : CString :=
  ⟨path.val ++ slash :: name.val, by
    intro member
    rcases List.mem_append.1 member with front | back
    · exact path.property front
    · rcases List.mem_cons.1 back with zero | back
      · exact absurd zero (by decide)
      · exact name.property back⟩

def dots (name : CString) : Bool := name.val = [dot] || name.val = [dot, dot]

def FileSystem.isDir (fs : FileSystem) (path : CString) : Bool :=
  match fs.stat path with
  | none => false
  | some info => info.directory

/-- `opendir`, and the names that `readdir` gives then, with the descriptors that are left. -/
def FileSystem.opendir (fs : FileSystem) (free : Nat) (path : CString) :
    Option (List CString) × Nat :=
  match free with
  | 0 => (none, 0)
  | free + 1 =>
    match fs.readdir path with
    | none => (none, free + 1)
    | some names => (some names, free)

/-- The first loop of `Scan`: directories still to read, and those read. A tree without end is
never done. -/
def scanDirs (fs : FileSystem) : Nat → Nat → List CString → List CString →
    Option (List CString × Nat)
  | _, free, [], done => some (done, free)
  | 0, _, _ :: _, _ => none
  | fuel + 1, free, path :: scan, done =>
    match fs.opendir free path with
    | (none, free) => scanDirs fs fuel free scan done
    | (some names, free) =>
      -- there is no closedir
      let dirs := names.filter fun name => !dots name && fs.isDir (join path name)
      scanDirs fs fuel free (dirs.foldl (fun scan name => join path name :: scan) scan)
        (done ++ [path])

/-- The file that `ScanDir` adds for a name; `st_size` becomes an `unsigned long`. -/
def scanName (ulong : Nat) (fs : FileSystem) (ext : Option CString) (path name : CString) :
    Option (CString × Nat) :=
  if dots name || !cmpExt name ext then none
  else
    match fs.stat (join path name) with
    | none => none
    | some info => if info.directory then none else some (join path name, info.size % ulong)

def scanDir (ulong : Nat) (fs : FileSystem) (ext : Option CString) (free : Nat) (path : CString) :
    List (CString × Nat) × Nat :=
  match fs.opendir free path with
  | (none, free) => ([], free)
  | (some names, free) => (names.filterMap (scanName ulong fs ext path), free)

/-- The second loop of `Scan`. -/
def scanDone (ulong : Nat) (fs : FileSystem) (ext : Option CString) :
    Nat → List CString → List (CString × Nat) × Nat
  | free, [] => ([], free)
  | free, path :: done =>
    let (files, free) := scanDir ulong fs ext free path
    let (more, free) := scanDone ulong fs ext free done
    (files ++ more, free)

/-- The files that `Scan` adds, in order, and the descriptors that are left. -/
def scan (ulong : Nat) (fs : FileSystem) (fuel free : Nat) (parent : Dir) :
    Option (List (CString × Nat) × Nat) :=
  match scanDirs fs fuel free [parent.path] [] with
  | none => none
  | some (done, free) => some (scanDone ulong fs parent.ext free done)

end Ptp.Collection
