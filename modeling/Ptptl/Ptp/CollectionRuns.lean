import Ptptl.Library.CInt
import Ptptl.Library.Runs
import Ptptl.Ptp.Scan
import Mathlib.Data.List.Nodup
import Mathlib.Logic.Function.Basic

set_option autoImplicit false

/-! # The collection's counter and its ids, over whole runs -/

namespace Ptp

open CInt Runs

/-- The collection with `m_size`. -/
structure Counted where
  collect : Collection := {}
  size : Int := 0

namespace Counted

open Collection

/-- What ends a run: a counter that leaves the range of an int, a pointer to no entry, a scan
without end. -/
inductive Fault where
  | overflow
  | absent
  | endless

inductive Op where
  | add (content : Content) (context : Option Nat)
  | destroy (position : Nat)
  | addDir (path : CString) (ext : Option CString) (context : Option Nat)
  | removeDir (path : CString)
  -- with the descriptors that the process has left
  | rescan (fs : FileSystem) (fuel free : Nat)

def count (size : Int) : Except Fault Int :=
  match checked size with
  | none => .error .overflow
  | some size => .ok size

def add (ulong : Nat) (counted : Counted) (entry : Entry) : Except Fault (Counted × List Entry) := do
  let size ← count (counted.size + 1)
  return ({ collect := counted.collect.add ulong entry, size := size },
    [{ entry with id := counted.collect.id }])

def destroy (counted : Counted) (position : Nat) : Except Fault Counted :=
  if position < counted.collect.entries.length then do
    let size ← count (counted.size - 1)
    return {
      collect := { counted.collect with entries := counted.collect.entries.eraseIdx position }
      size := size }
  else .error .absent

/-- The first loop of `Rescan`. -/
def sweep : List Entry → Int → Except Fault (List Entry × Int)
  | [], size => return ([], size)
  | entry :: rest, size => do
    if entry.rescanned then sweep rest size
    else
      let size ← count (size + 1)
      let (kept, size) ← sweep rest size
      return (entry :: kept, size)

def addFiles (ulong : Nat) (dir : Dir) :
    List (CString × Nat) → Counted → Except Fault (Counted × List Entry)
  | [], counted => return (counted, [])
  | file :: rest, counted => do
    let (counted, added) ← counted.add ulong (scanned dir file)
    let (counted, more) ← addFiles ulong dir rest counted
    return (counted, added ++ more)

def scanDirs (ulong : Nat) (fs : FileSystem) (fuel : Nat) :
    Nat → List Dir → Counted → Except Fault (Counted × List Entry)
  | _, [], counted => return (counted, [])
  | free, dir :: rest, counted =>
    match scan ulong fs fuel free dir with
    | none => .error .endless
    | some (files, free) => do
      let (counted, added) ← addFiles ulong dir files counted
      let (counted, more) ← scanDirs ulong fs fuel free rest counted
      return (counted, added ++ more)

def rescan (ulong : Nat) (counted : Counted) (fs : FileSystem) (fuel free : Nat) :
    Except Fault (Counted × List Entry) := do
  let (kept, size) ← sweep counted.collect.entries 0
  scanDirs ulong fs fuel free counted.collect.dirs
    { collect := { counted.collect with entries := kept }, size := size }

def step (ulong : Nat) (counted : Counted) : Op → Except Fault (Counted × List Entry)
  | .add content context => counted.add ulong { content := content, context := context }
  | .destroy position => do
    let counted ← counted.destroy position
    return (counted, [])
  | .addDir path ext context =>
    return ({ counted with collect := counted.collect.addDir path ext context }, [])
  | .removeDir path => return ({ counted with collect := counted.collect.removeDir path }, [])
  | .rescan fs fuel free => counted.rescan ulong fs fuel free

theorem count_ok {size counted : Int} : count size = .ok counted ↔ checked size = some counted := by
  unfold count
  split
  next none => simp [none]
  next value some => simp [some]

/-- The counter and the ids, against all entries that were ever added, in order. -/
structure Consistent (ulong : Nat) (counted : Counted) (history : List Entry) : Prop where
  size : counted.size = counted.collect.entries.length
  next : counted.collect.id = history.length % ulong
  kept : counted.collect.entries.reverse.Sublist history
  ids : ∀ index (inside : index < history.length), history[index].id = index % ulong

variable {ulong : Nat} {counted next : Counted} {history added : List Entry}

theorem Consistent.start (ulong : Nat) : Consistent ulong {} [] :=
  ⟨rfl, by simp, by simp, fun index inside => absurd inside (Nat.not_lt_zero index)⟩

theorem Consistent.add (consistent : Consistent ulong counted history) {entry : Entry}
    (called : counted.add ulong entry = .ok (next, added)) :
    Consistent ulong next (history ++ added) := by
  simp only [Counted.add, bind_ok, count_ok, checked_eq_some, pure_ok, Prod.mk.injEq] at called
  obtain ⟨_, ⟨_, rfl⟩, rfl, rfl⟩ := called
  refine ⟨?_, ?_, ?_, ?_⟩
  · simp [Collection.add, consistent.size]
  · simp [Collection.add, consistent.next]
  · simpa [Collection.add] using consistent.kept.append_right [{ entry with id := counted.collect.id }]
  · intro index inside
    rw [List.length_append, List.length_singleton] at inside
    by_cases old : index < history.length
    next =>
      rw [List.getElem_append_left old]
      exact consistent.ids index old
    next =>
      have last : index = history.length := by omega
      subst last
      rw [List.getElem_concat_length rfl]
      exact consistent.next

theorem Consistent.destroy (consistent : Consistent ulong counted history) {position : Nat}
    (called : counted.destroy position = .ok next) : Consistent ulong next history := by
  unfold Counted.destroy at called
  split at called
  next inside =>
    simp only [bind_ok, count_ok, checked_eq_some, pure_ok] at called
    obtain ⟨_, ⟨_, rfl⟩, rfl⟩ := called
    have kept := (List.eraseIdx_sublist counted.collect.entries position).reverse
    refine ⟨?_, consistent.next, kept.trans consistent.kept, consistent.ids⟩
    have size := consistent.size
    simp only [List.length_eraseIdx, if_pos inside]
    omega
  next => simp at called

theorem sweep_ok (entries : List Entry) : ∀ {size : Int} {kept : List Entry} {after : Int},
    sweep entries size = .ok (kept, after) →
    kept = entries.filter (fun entry => !entry.rescanned) ∧ after = size + kept.length := by
  induction entries with
  | nil =>
    intro size kept after swept
    simp only [sweep, pure_ok, Prod.mk.injEq] at swept
    obtain ⟨rfl, rfl⟩ := swept
    simp
  | cons entry rest ih =>
    intro size kept after swept
    rw [sweep] at swept
    split at swept
    next gone =>
      obtain ⟨same, counter⟩ := ih swept
      exact ⟨by rw [same, List.filter_cons_of_neg (by simp [gone])], counter⟩
    next stays =>
      simp only [bind_ok, count_ok, checked_eq_some, pure_ok, Prod.mk.injEq, Prod.exists] at swept
      obtain ⟨_, ⟨_, rfl⟩, rest', _, swept, rfl, rfl⟩ := swept
      obtain ⟨rfl, counter⟩ := ih swept
      refine ⟨by rw [List.filter_cons_of_pos (by simp [stays])], ?_⟩
      rw [counter, List.length_cons]
      omega

theorem Consistent.addFiles {dir : Dir} (files : List (CString × Nat)) :
    ∀ {counted next : Counted} {history added : List Entry}, Consistent ulong counted history →
    Counted.addFiles ulong dir files counted = .ok (next, added) →
    Consistent ulong next (history ++ added) := by
  induction files with
  | nil =>
    intro counted next history added consistent called
    simp only [Counted.addFiles, pure_ok, Prod.mk.injEq] at called
    obtain ⟨rfl, rfl⟩ := called
    simpa using consistent
  | cons file rest ih =>
    intro counted next history added consistent called
    simp only [Counted.addFiles, bind_ok, pure_ok, Prod.mk.injEq, Prod.exists] at called
    obtain ⟨_, first, one, _, more, all, rfl, rfl⟩ := called
    simpa using ih (consistent.add one) all

theorem Consistent.scanDirs {fs : FileSystem} {fuel : Nat} (dirs : List Dir) :
    ∀ {free : Nat} {counted next : Counted} {history added : List Entry},
    Consistent ulong counted history →
    Counted.scanDirs ulong fs fuel free dirs counted = .ok (next, added) →
    Consistent ulong next (history ++ added) := by
  induction dirs with
  | nil =>
    intro free counted next history added consistent called
    simp only [Counted.scanDirs, pure_ok, Prod.mk.injEq] at called
    obtain ⟨rfl, rfl⟩ := called
    simpa using consistent
  | cons dir rest ih =>
    intro free counted next history added consistent called
    rw [Counted.scanDirs] at called
    split at called
    next => simp at called
    next files left _ =>
      simp only [bind_ok, pure_ok, Prod.mk.injEq, Prod.exists] at called
      obtain ⟨_, first, one, _, more, all, rfl, rfl⟩ := called
      simpa using ih (consistent.addFiles files one) all

theorem Consistent.rescan (consistent : Consistent ulong counted history) {fs : FileSystem}
    {fuel free : Nat} (called : counted.rescan ulong fs fuel free = .ok (next, added)) :
    Consistent ulong next (history ++ added) := by
  simp only [Counted.rescan, bind_ok, Prod.exists] at called
  obtain ⟨kept, size, swept, scans⟩ := called
  obtain ⟨rfl, counter⟩ := sweep_ok _ swept
  have clean : Consistent ulong
      { collect := { counted.collect with
          entries := counted.collect.entries.filter fun entry => !entry.rescanned }
        size := size } history :=
    ⟨by simpa using counter, consistent.next,
      List.filter_sublist.reverse.trans consistent.kept, consistent.ids⟩
  exact clean.scanDirs _ scans

theorem Consistent.step (consistent : Consistent ulong counted history) {op : Op}
    (stepped : counted.step ulong op = .ok (next, added)) :
    Consistent ulong next (history ++ added) := by
  cases op with
  | add content context => exact consistent.add stepped
  | destroy position =>
    simp only [Counted.step, bind_ok, pure_ok, Prod.mk.injEq] at stepped
    obtain ⟨_, called, rfl, rfl⟩ := stepped
    simpa using consistent.destroy called
  | addDir path ext context =>
    simp only [Counted.step, pure_ok, Prod.mk.injEq] at stepped
    obtain ⟨rfl, rfl⟩ := stepped
    simpa using ⟨consistent.size, consistent.next, consistent.kept, consistent.ids⟩
  | removeDir path =>
    simp only [Counted.step, pure_ok, Prod.mk.injEq] at stepped
    obtain ⟨rfl, rfl⟩ := stepped
    simpa using ⟨consistent.size, consistent.next, consistent.kept, consistent.ids⟩
  | rescan fs fuel free => exact consistent.rescan stepped

theorem addFiles_collect {dir : Dir} (files : List (CString × Nat)) :
    ∀ {counted next : Counted} {added : List Entry},
    Counted.addFiles ulong dir files counted = .ok (next, added) →
    next.collect = files.foldl (fun collect file => collect.add ulong (scanned dir file))
      counted.collect := by
  induction files with
  | nil =>
    intro counted next added called
    simp only [Counted.addFiles, pure_ok, Prod.mk.injEq] at called
    rw [called.1]
    rfl
  | cons file rest ih =>
    intro counted next added called
    simp only [Counted.addFiles, Counted.add, bind_ok, pure_ok, Prod.mk.injEq, Prod.exists] at called
    obtain ⟨_, _, ⟨_, _, rfl, _⟩, _, _, all, rfl, _⟩ := called
    rw [ih all, List.foldl_cons]

/-- With its counter left out, `Rescan` is the one of the collection, for the files that the scans
find; of directories that are the same, the scans can find different files. -/
theorem scanDirs_collect {fs : FileSystem} {fuel : Nat} (dirs : List Dir) (once : dirs.Nodup) :
    ∀ {free : Nat} {counted next : Counted} {added : List Entry},
    Counted.scanDirs ulong fs fuel free dirs counted = .ok (next, added) →
    ∃ files : Dir → List (CString × Nat),
      next.collect = dirs.foldl (fun collect dir => (files dir).foldl
        (fun collect file => collect.add ulong (scanned dir file)) collect) counted.collect := by
  classical
  induction dirs with
  | nil =>
    intro free counted next added called
    simp only [Counted.scanDirs, pure_ok, Prod.mk.injEq] at called
    exact ⟨fun _ => [], by rw [called.1]; rfl⟩
  | cons dir rest ih =>
    intro free counted next added called
    obtain ⟨fresh, once⟩ := List.nodup_cons.1 once
    rw [Counted.scanDirs] at called
    split at called
    next => simp at called
    next found left _ =>
      simp only [bind_ok, pure_ok, Prod.mk.injEq, Prod.exists] at called
      obtain ⟨_, _, one, _, _, all, rfl, _⟩ := called
      obtain ⟨files, same⟩ := ih once all
      refine ⟨Function.update files dir found, ?_⟩
      rw [same, addFiles_collect found one, List.foldl_cons, Function.update_self]
      apply List.foldl_ext
      intro collect other member
      have different : other ≠ dir := by
        rintro rfl
        exact fresh member
      rw [Function.update_of_ne different]

theorem rescan_collect {fs : FileSystem} {fuel free : Nat} (once : counted.collect.dirs.Nodup)
    (called : counted.rescan ulong fs fuel free = .ok (next, added)) :
    ∃ files, next.collect = counted.collect.rescan ulong files := by
  simp only [Counted.rescan, bind_ok, Prod.exists] at called
  obtain ⟨kept, size, swept, scans⟩ := called
  obtain ⟨rfl, _⟩ := sweep_ok _ swept
  exact scanDirs_collect _ once scans

def additions (turns : List (Turn Counted Op Entry)) : List Entry :=
  turns.flatMap fun turn => turn.outputs

theorem Consistent.run {turns : List (Turn Counted Op Entry)} {last : Counted}
    (run : Run (Counted.step ulong) counted turns last) : ∀ {history : List Entry},
    Consistent ulong counted history → Consistent ulong last (history ++ additions turns) := by
  induction run with
  | nil state =>
    intro history consistent
    simpa [additions] using consistent
  | cons stepped _ ih =>
    intro history consistent
    simpa [additions] using ih (consistent.step stepped)

theorem Consistent.find (consistent : Consistent ulong counted history)
    (few : history.length ≤ ulong) {id : Nat} {entry : Entry}
    (found : counted.collect.find id = some entry) : history[id]? = some entry := by
  have member : entry ∈ history :=
    consistent.kept.subset (List.mem_reverse.2 (List.mem_of_find?_eq_some found))
  have same : entry.id = id := by simpa using List.find?_some found
  obtain ⟨index, inside, rfl⟩ := List.mem_iff_getElem.1 member
  rw [consistent.ids index inside, Nat.mod_eq_of_lt (by omega)] at same
  subst same
  exact List.getElem?_eq_getElem inside

theorem Consistent.nodup (consistent : Consistent ulong counted history)
    (few : history.length ≤ ulong) : (counted.collect.entries.map Entry.id).Nodup := by
  have places : history.map Entry.id = List.range history.length := by
    refine List.ext_getElem (by simp) fun index inside _ => ?_
    have within : index < history.length := by simpa using inside
    rw [List.getElem_map, List.getElem_range, consistent.ids index within,
      Nat.mod_eq_of_lt (by omega)]
  have all : (history.map Entry.id).Nodup := places ▸ List.nodup_range
  have back := all.sublist (consistent.kept.map Entry.id)
  rw [List.map_reverse] at back
  exact List.nodup_reverse.1 back

theorem collection_invariant {ulong : Nat} (wide : 4294967296 ≤ ulong)
    {turns : List (Turn Counted Op Entry)} {last : Counted}
    (run : Run (Counted.step ulong) {} turns last) :
    last.size = last.collect.entries.length ∧
      ((additions turns).length < 4294967296 →
        (last.collect.entries.map Entry.id).Nodup ∧
          ∀ id entry, last.collect.find id = some entry → (additions turns)[id]? = some entry) ∧
      ∀ more later, Run (Counted.step ulong) last more later →
        (additions turns ++ additions more).length < 4294967296 →
        ∀ old ∈ last.collect.entries, ∀ new ∈ later.collect.entries, new.id = old.id → new = old := by
  have consistent : Consistent ulong last (additions turns) := by
    simpa using (Consistent.start ulong).run run
  refine ⟨consistent.size, ?_, ?_⟩
  · intro few
    exact ⟨consistent.nodup (by omega), fun id entry found => consistent.find (by omega) found⟩
  · intro more later rest few old inside new inside' same
    have after := consistent.run rest
    have place (entry : Entry) (member : entry ∈ additions turns ++ additions more) :
        (additions turns ++ additions more)[entry.id]? = some entry := by
      obtain ⟨index, within, rfl⟩ := List.mem_iff_getElem.1 member
      rw [after.ids index within, Nat.mod_eq_of_lt (by omega)]
      exact List.getElem?_eq_getElem within
    have before := place old (List.mem_append_left _
      (consistent.kept.subset (List.mem_reverse.2 inside)))
    have now := place new (after.kept.subset (List.mem_reverse.2 inside'))
    rw [same, before, Option.some.injEq] at now
    exact now.symm

def note : Content := .data ⟨[97], by decide⟩ []

def noted (id : Nat) : Counted where
  collect := { id := id, entries := [{ content := note }] }
  size := 1

def shelf : FileSystem where
  readdir path := if path.val = ascii "/d" then some [⟨ascii "a", by decide⟩, ⟨ascii "b", by decide⟩]
    else none
  stat _ := some ⟨false, 3⟩

def scannedTwice : List Op :=
  [.add note none, .addDir ⟨ascii "/d", by decide⟩ none none, .rescan shelf 4 100, .destroy 1,
    .rescan shelf 4 100]

theorem collection_invariant_note : ∃ turns last,
    execute (Counted.step 4294967296) {} scannedTwice = some (turns, last) ∧
      last.collect.entries.map Entry.id = [4, 3, 0] ∧
      last.size = last.collect.entries.length ∧
        ((additions turns).length < 4294967296 →
          (last.collect.entries.map Entry.id).Nodup ∧
            ∀ id entry, last.collect.find id = some entry → (additions turns)[id]? = some entry) ∧
        ∀ more later, Run (Counted.step 4294967296) last more later →
          (additions turns ++ additions more).length < 4294967296 →
          ∀ old ∈ last.collect.entries, ∀ new ∈ later.collect.entries,
            new.id = old.id → new = old := by
  obtain ⟨turns, last, executed, ids⟩ := @execute_any _ _ _ _ (Counted.step 4294967296) {}
    scannedTwice (fun _ last => decide (last.collect.entries.map Entry.id = [4, 3, 0]))
    (by decide +kernel)
  have run := Run.of_execute executed
  exact ⟨turns, last, executed, of_decide_eq_true ids, collection_invariant (Nat.le_refl _) run⟩

theorem ids_used {ulong : Nat} {more : List (Turn Counted Op Entry)} {last : Counted}
    (count : Nat) : ∀ id, id + count < ulong →
    Run (Counted.step ulong) (noted (id + count)) more last →
    ∃ turns, Run (Counted.step ulong) (noted id) turns last := by
  induction count with
  | zero => exact fun id _ run => ⟨more, run⟩
  | succ count ih =>
    intro id within run
    have place : id + 1 + count = id + (count + 1) := by omega
    obtain ⟨turns, run⟩ := ih (id + 1) (by omega) (place ▸ run)
    have wrapped : (id + 1) % ulong = id + 1 := Nat.mod_eq_of_lt (by omega)
    let both : Counted :=
      { collect := { id := id + 1, entries := [{ id := id, content := note }, { content := note }] }
        size := 2 }
    have added : Counted.step ulong (noted id) (.add note none) =
        .ok (both, [{ id := id, content := note }]) := by
      have step : Counted.step ulong (noted id) (.add note none) =
          .ok ({ both with collect := { both.collect with id := (id + 1) % ulong } },
            [{ id := id, content := note }]) := rfl
      rw [step, wrapped]
    have gone : Counted.step ulong both (.destroy 0) = .ok (noted (id + 1), []) := rfl
    exact ⟨_, .cons added (.cons gone run)⟩

/-- The counter comes back to the id of an entry that is still there. -/
theorem ids_wrap : ¬ ∀ (ulong : Nat) (turns : List (Turn Counted Op Entry)) (last : Counted),
    4294967296 ≤ ulong → Run (Counted.step ulong) {} turns last →
      last.size = last.collect.entries.length ∧ (last.collect.entries.map Entry.id).Nodup := by
  intro unique
  let two : Counted :=
    { collect := { id := 0, entries := [{ id := 4294967295, content := note }, { content := note }] }
      size := 2 }
  let three : Counted :=
    { collect := { two.collect with
        id := 1
        entries := { content := note } :: two.collect.entries }
      size := 3 }
  have first : Counted.step 4294967296 {} (.add note none) = .ok (noted 1, [{ content := note }]) :=
    rfl
  have second : Counted.step 4294967296 (noted (1 + 4294967294)) (.add note none) =
      .ok (two, [{ id := 4294967295, content := note }]) := rfl
  have third : Counted.step 4294967296 two (.add note none) = .ok (three, [{ content := note }]) :=
    rfl
  obtain ⟨turns, run⟩ := ids_used 4294967294 1 (by decide) (.cons second (.cons third (.nil _)))
  have ids := (unique _ _ three (Nat.le_refl _) (.cons first run)).2
  exact absurd ids (by decide)

end Counted

end Ptp
