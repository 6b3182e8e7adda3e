import Ptptl.Trut.Peer
import Mathlib.Data.List.Perm.Basic
import Mathlib.Data.List.Nodup

set_option autoImplicit false

/-! # Shared directories and the directories of the collection -/

open Ptp Trut

def Trut.Shared.dir (shared : Shared) : Collection.Dir := ⟨shared.path, shared.ext, shared.group⟩

namespace Peer

/-- The directories of the collection are those of the shares, in any order. -/
def Mirrors (peer : Peer) : Prop := peer.trut.collect.dirs.Perm (peer.shared.map Shared.dir)

/-- No other share has the path of this one. -/
def Alone (peer : Peer) (ref : Nat) : Prop :=
  ∀ old, peer.shared.find? (fun shared => shared.ref = ref) = some old →
    ∀ other ∈ peer.shared, other.path = old.path → other.ref = ref

/-- A share that is updated or removed is alone with its path. -/
def Apart (peer : Peer) : Op → Prop
  | .updateShared ref _ _ _ => peer.Alone ref
  | .removeShared ref _ => peer.Alone ref
  | _ => True

/-- Shares are told apart. -/
structure Distinct (peer : Peer) : Prop where
  refs : (peer.shared.map Shared.ref).Nodup
  fresh : ∀ shared ∈ peer.shared, shared.ref < peer.allocated

structure SameShares (peer next : Peer) : Prop where
  shared : next.shared = peer.shared
  allocated : next.allocated = peer.allocated
  dirs : next.trut.collect.dirs = peer.trut.collect.dirs

variable {ulong : Nat} {evp : Cipher} {peer next : Peer} {ref : Nat} {outputs : List Output}

theorem Distinct.split (distinct : peer.Distinct) {old : Shared}
    (found : peer.shared.find? (fun shared => shared.ref = ref) = some old) :
    old.ref = ref ∧ old ∈ peer.shared ∧
      peer.shared.Perm (old :: peer.shared.filter fun shared => shared.ref ≠ ref) := by
  have same : old.ref = ref := by simpa using List.find?_some found
  have member := List.mem_of_find?_eq_some found
  refine ⟨same, member, ?_⟩
  obtain ⟨front, back, shape⟩ := List.append_of_mem member
  have refs := distinct.refs
  rw [shape, List.map_append, List.map_cons, same] at refs
  have apart := List.nodup_middle.1 refs
  have others : ∀ shared ∈ front ++ back, shared.ref ≠ ref := by
    intro shared inside equal
    refine (List.nodup_cons.1 apart).1 ?_
    rw [← List.map_append, ← equal]
    exact List.mem_map_of_mem inside
  have filtered : peer.shared.filter (fun shared => shared.ref ≠ ref) = front ++ back := by
    rw [shape, List.filter_append, List.filter_cons_of_neg (by simp [same]), ← List.filter_append]
    exact List.filter_eq_self.2 fun shared inside => by simpa using others shared inside
  rw [filtered, shape]
  exact List.perm_middle

theorem Mirrors.removed (mirrors : peer.Mirrors) (distinct : peer.Distinct) {old : Shared}
    (found : peer.shared.find? (fun shared => shared.ref = ref) = some old) :
    (peer.trut.collect.removeDir old.path).dirs.Perm
        ((peer.shared.filter fun shared => shared.ref ≠ ref).map Shared.dir) ↔ peer.Alone ref := by
  constructor
  next =>
    intro mirrored old' found' other member path
    rw [found, Option.some.injEq] at found'
    subst found'
    by_contra different
    have stays : other.dir ∈ (peer.shared.filter fun shared => shared.ref ≠ ref).map Shared.dir :=
      List.mem_map_of_mem (List.mem_filter.2 ⟨member, by simpa using different⟩)
    have gone := of_decide_eq_true (List.mem_filter.1 (mirrored.mem_iff.2 stays)).2
    exact gone path
  next =>
    intro alone
    obtain ⟨same, member, _⟩ := distinct.split found
    have kept : peer.shared.filter (fun shared => shared.ref ≠ ref) =
        peer.shared.filter fun shared => shared.path ≠ old.path := by
      refine List.filter_congr fun other inside => ?_
      have either : other.ref = ref ↔ other.path = old.path := by
        constructor
        next =>
          intro equal
          rw [List.inj_on_of_nodup_map distinct.refs inside member (equal.trans same.symm)]
        next => exact alone old found other inside
      simp only [Ne, either]
    rw [kept]
    have filtered := List.Perm.filter (fun dir : Collection.Dir => dir.path ≠ old.path) mirrors
    rw [List.filter_map] at filtered
    exact filtered

theorem rescan_dirs (peer : Peer) (files : Collection.Dir → List (CString × Nat)) :
    (peer.rescan ulong files).trut.collect.dirs = peer.trut.collect.dirs :=
  (Collection.rescan_entries ulong peer.trut.collect files).1

theorem addShared_dirs (trut : Trut) (path : CString) (ext : Option CString) (group : Option Nat)
    (files : Collection.Dir → List (CString × Nat)) :
    (trut.addShared ulong path ext group files).collect.dirs =
      ⟨path, ext, group⟩ :: trut.collect.dirs :=
  (Collection.rescan_entries ulong (trut.collect.addDir path ext group) files).1

theorem addShared_mirrors (mirrors : peer.Mirrors) (path : CString) (ext : Option CString)
    (group : Option Nat) (files : Collection.Dir → List (CString × Nat)) :
    (peer.addShared ulong path ext group files).Mirrors := by
  unfold Mirrors addShared
  rw [addShared_dirs, List.map_cons]
  exact mirrors.cons _

theorem removeShared_mirrors (mirrors : peer.Mirrors) (distinct : peer.Distinct)
    (files : Collection.Dir → List (CString × Nat)) :
    (peer.removeShared ulong ref files).Mirrors ↔ peer.Alone ref := by
  cases found : peer.shared.find? fun shared => shared.ref = ref with
  | none =>
    have alone : peer.Alone ref := fun old absent => by simp [found] at absent
    simp only [removeShared, found]
    exact iff_of_true mirrors alone
  | some old =>
    rw [← mirrors.removed distinct found]
    simp only [removeShared, found, Mirrors]
    rw [rescan_dirs]
    exact Iff.rfl

theorem updateShared_mirrors (mirrors : peer.Mirrors) (distinct : peer.Distinct)
    (ext : Option CString) (group : Option Nat) (files : Collection.Dir → List (CString × Nat)) :
    (peer.updateShared ulong ref ext group files).Mirrors ↔ peer.Alone ref := by
  cases found : peer.shared.find? fun shared => shared.ref = ref with
  | none =>
    have alone : peer.Alone ref := fun old absent => by simp [found] at absent
    simp only [updateShared, found]
    exact iff_of_true mirrors alone
  | some old =>
    obtain ⟨same, _, split⟩ := distinct.split found
    let change : Shared → Shared := fun shared =>
      if shared.ref = ref then { shared with ext := ext, group := group } else shared
    have others : (peer.shared.filter fun shared => shared.ref ≠ ref).map (Shared.dir ∘ change) =
        (peer.shared.filter fun shared => shared.ref ≠ ref).map Shared.dir := by
      refine List.map_congr_left fun shared inside => ?_
      have different := of_decide_eq_true (List.mem_filter.1 inside).2
      simp only [Function.comp_apply, change, if_neg different]
    have first : (Shared.dir ∘ change) old = ⟨old.path, ext, group⟩ := by
      simp only [Function.comp_apply, change, if_pos same, Shared.dir]
    -- the share is changed in its place, and its directory goes to the front
    have moved := split.map (Shared.dir ∘ change)
    rw [List.map_cons, first, others] at moved
    rw [← mirrors.removed distinct found]
    simp only [updateShared, found, Mirrors]
    rw [addShared_dirs, List.map_map]
    constructor
    next =>
      intro mirrored
      exact (List.perm_cons _).1 (mirrored.trans moved)
    next =>
      intro removed
      exact (removed.cons _).trans moved.symm

theorem SameShares.mirrors (same : SameShares peer next) : next.Mirrors ↔ peer.Mirrors := by
  rw [Mirrors, Mirrors, same.shared, same.dirs]

theorem SameShares.distinct (same : SameShares peer next) (distinct : peer.Distinct) :
    next.Distinct := by
  refine ⟨?_, ?_⟩
  · rw [same.shared]
    exact distinct.refs
  · rw [same.shared, same.allocated]
    exact distinct.fresh

theorem joinGroup_shares (trut : Trut) (name : CString) (accept : Option (Option CString → Int)) :
    (trut.joinGroup name accept).collect = trut.collect := by
  unfold Trut.joinGroup
  split
  next => rfl
  next =>
    split
    next => rfl
    next => rfl

theorem joinCreate_dirs (trut : Trut) (ref : Nat) (key : SessionKey) :
    (trut.joinCreate ulong ref key).collect.dirs = trut.collect.dirs := by
  unfold Trut.joinCreate
  split
  next => rfl
  next =>
    split
    next => rfl
    next => rfl

theorem step_shares {op : Op} (stepped : peer.step ulong evp op = .ok (next, outputs)) :
    (SameShares peer next ∧ peer.Apart op) ∨
      (∃ path ext group files, op = .addShared path ext group files ∧
        next = peer.addShared ulong path ext group files) ∨
      (∃ ref ext group files, op = .updateShared ref ext group files ∧
        next = peer.updateShared ulong ref ext group files) ∨
      ∃ ref files, op = .removeShared ref files ∧ next = peer.removeShared ulong ref files := by
  have unchanged : SameShares peer peer := ⟨rfl, rfl, rfl⟩
  cases step_cases stepped with
  | joinGroup name join accept guid =>
    have trut := joinGroup_trut peer name join accept guid
    have dirs := congrArg Collection.dirs (joinGroup_shares peer.trut name accept)
    refine .inl ⟨⟨?_, ?_, by rw [trut]; exact dirs⟩, trivial⟩
    · unfold joinGroup searchKey
      repeat' split
      all_goals rfl
    · unfold joinGroup searchKey
      repeat' split
      all_goals rfl
  | wake woken =>
    rcases wake_cases woken with ⟨rfl, _⟩ | ⟨group, _, _, woken⟩
    · exact .inl ⟨unchanged, trivial⟩
    · split at woken
      next => exact .inl ⟨woken.1 ▸ ⟨rfl, rfl, rfl⟩, trivial⟩
      next => exact .inl ⟨woken.1 ▸ ⟨rfl, rfl, joinCreate_dirs _ _ _⟩, trivial⟩
  | leaveGroup _ same => exact .inl ⟨same ▸ ⟨rfl, rfl, rfl⟩, trivial⟩
  | search | searchStop => exact .inl ⟨⟨rfl, rfl, rfl⟩, trivial⟩
  | addShared path ext group files => exact .inr (.inl ⟨path, ext, group, files, rfl, rfl⟩)
  | updateShared shared ext group files =>
    exact .inr (.inr (.inl ⟨shared, ext, group, files, rfl, rfl⟩))
  | removeShared shared files => exact .inr (.inr (.inr ⟨shared, files, rfl, rfl⟩))
  | response handled =>
    have kept := response_invariant (SameShares peer)
      (fun ref name same => ⟨same.shared, same.allocated, same.dirs⟩) handled unchanged
    exact .inl ⟨kept.1, trivial⟩
  | request => exact .inl ⟨unchanged, trivial⟩
  | fetched fetched =>
    rcases fetchKey_cases fetched with ⟨rfl, _⟩ | ⟨_, rfl, _⟩ | ⟨_, _, trut, _, _, installed, rfl, _⟩
    · exact .inl ⟨unchanged, trivial⟩
    · exact .inl ⟨⟨rfl, rfl, rfl⟩, trivial⟩
    · obtain ⟨_, _, _, _, rfl⟩ := Trut.fetchKey_spec installed
      exact .inl ⟨⟨rfl, rfl, rfl⟩, trivial⟩

theorem addShared_distinct (distinct : peer.Distinct) (path : CString) (ext : Option CString)
    (group : Option Nat) (files : Collection.Dir → List (CString × Nat)) :
    (peer.addShared ulong path ext group files).Distinct := by
  refine ⟨?_, ?_⟩
  · refine List.nodup_cons.2 ⟨fun member => ?_, distinct.refs⟩
    obtain ⟨shared, inside, same⟩ := List.mem_map.1 member
    have old : shared.ref < peer.allocated := distinct.fresh shared inside
    have new : shared.ref = peer.allocated := same
    omega
  · refine List.forall_mem_cons.2 ⟨Nat.lt_succ_self _, fun shared inside => ?_⟩
    exact Nat.lt_succ_of_lt (distinct.fresh shared inside)

theorem updateShared_distinct (distinct : peer.Distinct) (ext : Option CString)
    (group : Option Nat) (files : Collection.Dir → List (CString × Nat)) :
    (peer.updateShared ulong ref ext group files).Distinct := by
  unfold updateShared
  split
  next => exact distinct
  next old _ =>
    have refs : ∀ shared : Shared,
        (if shared.ref = ref then { shared with ext := ext, group := group } else shared).ref =
          shared.ref := by
      intro shared
      split <;> rfl
    refine ⟨?_, ?_⟩
    · rw [List.map_map]
      have same : Shared.ref ∘ (fun shared : Shared =>
          if shared.ref = ref then { shared with ext := ext, group := group } else shared) =
            Shared.ref := funext refs
      rw [same]
      exact distinct.refs
    · intro shared member
      obtain ⟨before, inside, rfl⟩ := List.mem_map.1 member
      rw [refs]
      exact distinct.fresh before inside

theorem removeShared_distinct (distinct : peer.Distinct)
    (files : Collection.Dir → List (CString × Nat)) :
    (peer.removeShared ulong ref files).Distinct := by
  unfold removeShared
  split
  next => exact distinct
  next old _ =>
    refine ⟨distinct.refs.sublist (List.filter_sublist.map _), fun shared member => ?_⟩
    exact distinct.fresh shared (List.mem_filter.1 member).1

theorem step_mirrors {op : Op} (mirrors : peer.Mirrors) (distinct : peer.Distinct)
    (stepped : peer.step ulong evp op = .ok (next, outputs)) :
    next.Distinct ∧ (next.Mirrors ↔ peer.Apart op) := by
  rcases step_shares stepped with ⟨same, apart⟩ | ⟨path, ext, group, files, rfl, rfl⟩ |
    ⟨ref, ext, group, files, rfl, rfl⟩ | ⟨ref, files, rfl, rfl⟩
  · exact ⟨same.distinct distinct, iff_of_true (same.mirrors.2 mirrors) apart⟩
  · exact ⟨addShared_distinct distinct path ext group files,
      iff_of_true (addShared_mirrors mirrors path ext group files) trivial⟩
  · exact ⟨updateShared_distinct distinct ext group files,
      updateShared_mirrors mirrors distinct ext group files⟩
  · exact ⟨removeShared_distinct distinct files, removeShared_mirrors mirrors distinct files⟩

theorem run_mirrors {first last : Peer} {turns : List Turn} (run : Run ulong evp first turns last)
    (mirrors : first.Mirrors) (distinct : first.Distinct) :
    ((∀ turn ∈ turns, turn.state.Mirrors) ∧ last.Mirrors) ↔
      ∀ turn ∈ turns, turn.state.Apart turn.op := by
  induction run with
  | nil state => simpa using mirrors
  | @cons state next last op outputs turns stepped run ih =>
    obtain ⟨distinct, kept⟩ := step_mirrors mirrors distinct stepped
    rw [List.forall_mem_cons, List.forall_mem_cons, and_iff_right mirrors]
    constructor
    next =>
      intro always
      -- the state after this step is the first of the rest, or the last of all
      have after : next.Mirrors := by
        cases run with
        | nil => exact always.2
        | cons _ _ => exact always.1 _ List.mem_cons_self
      exact ⟨kept.1 after, (ih after distinct).1 always⟩
    next =>
      rintro ⟨apart, rest⟩
      exact (ih (kept.2 apart) distinct).2 rest

/-- In a run the directories always mirror the shares if and only if no share is updated or
removed whose path is shared a second time. -/
theorem shared_mirrored_iff {last : Peer} {turns : List Turn}
    (run : Run ulong evp start turns last) :
    ((∀ turn ∈ turns, turn.state.Mirrors) ∧ last.Mirrors) ↔
      ∀ turn ∈ turns, turn.state.Apart turn.op :=
  run_mirrors run (List.Perm.refl []) ⟨List.nodup_nil, by simp [start]⟩

def music : CString := ⟨ascii "/music", by decide⟩

def sharedOnce : Peer := start.addShared 4294967296 music none none fun _ => []

def sharedTwice : Peer := sharedOnce.addShared 4294967296 music none (some 0) fun _ => []

theorem apart_of_nodup {op : Op} (once : (peer.shared.map Shared.path).Nodup) : peer.Apart op := by
  have alone (ref : Nat) : peer.Alone ref := by
    intro old found other member path
    have same : old.ref = ref := by simpa using List.find?_some found
    have inside := List.mem_of_find?_eq_some found
    exact List.inj_on_of_nodup_map once member inside path ▸ same
  cases op with
  | updateShared ref => exact alone ref
  | removeShared ref => exact alone ref
  | _ => trivial

def films : CString := ⟨ascii "/films", by decide⟩

def ogg : CString := ⟨ascii ".ogg", by decide⟩

def twoShares : List Op :=
  [.addShared music none none fun _ => [], joining club, .addShared films none (some 0) fun _ => [],
    .updateShared 0 (some ogg) (some 0) fun _ => [], .wake 0 (Block.zero _),
    .removeShared 1 fun _ => []]

theorem shared_mirrored_once : ∃ turns last,
    Runs.execute (step 4294967296 Key.zeroCipher) start twoShares = some (turns, last) ∧
      last.shared.map Shared.dir = [⟨music, some ogg, some 0⟩] ∧
      (∀ turn ∈ turns, turn.state.Mirrors) ∧ last.Mirrors := by
  obtain ⟨turns, last, executed, same⟩ := @Runs.execute_any _ _ _ _
    (step 4294967296 Key.zeroCipher) start twoShares (fun turns last => decide
      ((∀ turn ∈ turns, (turn.state.shared.map Shared.path).Nodup) ∧
        last.shared.map (fun shared => (shared.path, shared.ext, shared.group)) =
          [(music, some ogg, some 0)])) (by decide +kernel)
  obtain ⟨once, left⟩ := of_decide_eq_true same
  have dirs := congrArg (List.map fun (path, ext, group) => (⟨path, ext, group⟩ : Collection.Dir)) left
  rw [List.map_map] at dirs
  exact ⟨turns, last, executed, dirs, (shared_mirrored_iff (.of_execute executed)).2
    fun turn member => apart_of_nodup (once turn member)⟩

/-- One directory, shared with everybody and with a group: the first goes, and so does the
second. -/
theorem shared_not_mirrored : ¬ ∀ (turns : List Turn) (last : Peer),
    Run 4294967296 Key.zeroCipher start turns last → last.Mirrors := by
  intro mirrored
  have run : Run 4294967296 Key.zeroCipher start
      [⟨start, .addShared music none none fun _ => [], []⟩,
        ⟨sharedOnce, .addShared music none (some 0) fun _ => [], []⟩,
        ⟨sharedTwice, .removeShared 0 fun _ => [], []⟩]
      (sharedTwice.removeShared 4294967296 0 fun _ => []) :=
    .cons rfl (.cons rfl (.cons rfl (.nil _)))
  have same := (mirrored _ _ run).length_eq
  exact absurd same (by decide)

end Peer
