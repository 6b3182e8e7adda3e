import Ptptl.Trut.Peer

set_option autoImplicit false

/-! # References to groups -/

namespace Trut

open Ptp

variable {ulong : Nat}

def Live (trut : Trut) (ref : Nat) : Prop := ∃ group ∈ trut.groups, group.ref = ref

def Keyed (trut : Trut) (ref : Nat) : Prop :=
  trut.Live ref ∧ ∀ group ∈ trut.groups, group.ref = ref → group.key.isSome

theorem live_group {trut : Trut} {ref : Nat} :
    trut.Live ref ↔ ∃ group, trut.group ref = some group := by
  constructor
  · rintro ⟨group, member, same⟩
    cases found : trut.group ref with
    | none => exact absurd (List.find?_eq_none.1 found group member) (by simp [same])
    | some other => exact ⟨other, rfl⟩
  · rintro ⟨group, found⟩
    exact ⟨group, List.mem_of_find?_eq_some found, group_ref found⟩

theorem Keyed.useKey {trut : Trut} {ref : Nat} {group : Group} (keyed : trut.Keyed ref)
    (found : trut.group ref = some group) : ∃ key, group.useKey = .ok key := by
  have has := keyed.2 group (List.mem_of_find?_eq_some found) (group_ref found)
  obtain ⟨key, equal⟩ := Option.isSome_iff_exists.1 has
  exact ⟨key, useKey_ok.2 equal⟩

theorem deref_error {trut : Trut} {ref : Nat} {fault : Fault} (live : trut.Live ref) :
    trut.deref ref ≠ .error fault := by
  obtain ⟨group, found⟩ := live_group.1 live
  simp [deref, found]

theorem orUndefined_error {α : Type} {option : Option α} {fault : Fault}
    (failed : orUndefined option = .error fault) : fault = .undefined := by
  cases option with
  | none => simpa [orUndefined] using failed.symm
  | some value => simp [orUndefined] at failed

structure Later (trut next : Trut) : Prop where
  live : ∀ ref, trut.Live ref → next.Live ref
  keyed : ∀ ref, trut.Keyed ref → next.Keyed ref

theorem Later.refl (trut : Trut) : trut.Later trut := ⟨fun _ live => live, fun _ keyed => keyed⟩

def Fresh (trut : Trut) : Prop := ∀ group ∈ trut.groups, group.ref < trut.allocated

theorem update_later (trut : Trut) (ref : Nat) (change : Group → Group)
    (same : ∀ group, (change group).ref = group.ref)
    (kept : ∀ group, group.key.isSome → (change group).key.isSome) :
    trut.Later (trut.update ref change) ∧ (trut.Fresh → (trut.update ref change).Fresh) := by
  have changed (group : Group) :
      (if group.ref = ref then change group else group).ref = group.ref := by
    split
    · exact same group
    · rfl
  have live (other : Nat) (before : trut.Live other) : (trut.update ref change).Live other := by
    obtain ⟨group, member, equal⟩ := before
    exact ⟨_, List.mem_map.2 ⟨group, member, rfl⟩, (changed group).trans equal⟩
  refine ⟨⟨live, fun other keyed => ⟨live other keyed.1, ?_⟩⟩, fun fresh => ?_⟩
  · intro group member equal
    obtain ⟨before, inside, rfl⟩ := List.mem_map.1 member
    rw [changed] at equal
    have has := keyed.2 before inside equal
    split
    · exact kept before has
    · exact has
  · intro group member
    obtain ⟨before, inside, rfl⟩ := List.mem_map.1 member
    rw [changed]
    exact fresh before inside

theorem joinGroup_later (trut : Trut) (fresh : trut.Fresh) (name : CString)
    (accept : Option (Option CString → Int)) :
    trut.Later (trut.joinGroup name accept) ∧ (trut.joinGroup name accept).Fresh := by
  simp only [joinGroup]
  split
  next =>
    have live (other : Nat) (before : trut.Live other) : ∃ group ∈
        ({ ref := trut.allocated, name := name, accept := accept } : Group) :: trut.groups,
        group.ref = other := by
      obtain ⟨group, member, equal⟩ := before
      exact ⟨group, List.mem_cons_of_mem _ member, equal⟩
    refine ⟨⟨live, fun other keyed => ⟨live other keyed.1, ?_⟩⟩, ?_⟩
    · intro group member equal
      rcases List.mem_cons.1 member with rfl | member
      · obtain ⟨old, inside, same⟩ := keyed.1
        have below := fresh old inside
        rw [same, ← equal] at below
        exact absurd below (Nat.lt_irrefl _)
      · exact keyed.2 group member equal
    · intro group member
      rcases List.mem_cons.1 member with rfl | member
      · exact Nat.lt_succ_self _
      · exact Nat.lt_succ_of_lt (fresh group member)
  next group found =>
    split
    · have updated := trut.update_later group.ref
        (fun group => { group with accept := accept, responses := 0 }) (fun _ => rfl)
        fun _ has => has
      exact ⟨updated.1, updated.2 fresh⟩
    · exact ⟨Later.refl trut, fresh⟩

theorem joinCreate_later (ulong : Nat) (trut : Trut) (fresh : trut.Fresh) (ref : Nat) (key : SessionKey) :
    trut.Later (trut.joinCreate ulong ref key) ∧ (trut.joinCreate ulong ref key).Fresh := by
  simp only [joinCreate]
  split
  next => exact ⟨Later.refl trut, fresh⟩
  next group found =>
    split
    · exact ⟨Later.refl trut, fresh⟩
    · have updated := trut.update_later ref (fun group => { group with key := some key })
        (fun _ => rfl) fun _ _ => rfl
      exact ⟨⟨updated.1.live, updated.1.keyed⟩, updated.2 fresh⟩

theorem findKey_later (trut : Trut) (ref : Nat) (fileName : Bytes) :
    trut.Later (trut.findKey ref fileName) ∧ (trut.Fresh → (trut.findKey ref fileName).Fresh) := by
  refine trut.update_later ref _ (fun group => ?_) fun group has => ?_
  · split <;> rfl
  · split
    · exact has
    · exact has

theorem fetchKey_later {trut next : Trut} (fresh : trut.Fresh) {ref size : Nat} {data : Bytes}
    (fetched : trut.fetchKey ulong ref data size = some next) : trut.Later next ∧ next.Fresh := by
  obtain ⟨group, _, _, _, rfl⟩ := fetchKey_spec fetched
  have updated := trut.update_later ref
    (fun group => { group with key := some (Block.ofBytes sessionKeySize data) })
    (fun _ => rfl) fun _ _ => rfl
  exact ⟨⟨updated.1.live, updated.1.keyed⟩, updated.2 fresh⟩

def Target.keyed : Target → Bool
  | .secure group _ => group.key.isSome
  | _ => true

end Trut

namespace Peer

open Ptp Trut Gnutella

variable {ulong : Nat} {evp : Cipher}

/-- Whether a pending search, a share, a directory or an entry has the group's address. -/
def Refers (peer : Peer) (ref : Nat) : Prop :=
  (∃ search ∈ peer.searches, search.callback = .findKey ref ∨ search.group = some ref) ∨
  (∃ shared ∈ peer.shared, shared.group = some ref) ∨
  (∃ dir ∈ peer.trut.collect.dirs, dir.context = some ref) ∨
  ∃ entry ∈ peer.trut.collect.entries, entry.context = some ref

/-- Groups are left when nothing refers to them, and used only while they are there; searches are
made in groups with a key, and no request to a group comes before its key. -/
def Careful (peer : Peer) : Op → Prop
  | .leaveGroup ref => peer.trut.Live ref ∧ ¬ peer.Refers ref
  | .search _ _ group _ _ => ∀ ref, group = some ref → peer.trut.Keyed ref
  | .addShared _ _ group _ => ∀ ref, group = some ref → peer.trut.Live ref
  | .updateShared _ _ group _ => ∀ ref, group = some ref → peer.trut.Live ref
  | .wake ref _ => ref ∈ peer.waiting → peer.trut.Live ref
  | .fetched ref _ => ref ∈ peer.fetching → peer.trut.Live ref
  | .request rqst _ => ∀ str, searchText rqst = some str → ∀ group cipher,
    target peer.trut str = .secure group cipher → group.key.isSome
  | _ => True

structure Guarded (peer : Peer) : Prop where
  fresh : peer.trut.Fresh
  refers : ∀ ref, peer.Refers ref → peer.trut.Live ref
  searches : ∀ search ∈ peer.searches, ∀ ref, search.group = some ref → peer.trut.Keyed ref

theorem Guarded.later {peer next : Peer} (guarded : peer.Guarded)
    (later : peer.trut.Later next.trut) (fresh : next.trut.Fresh)
    (refers : ∀ ref, next.Refers ref → peer.Refers ref ∨ next.trut.Live ref)
    (searches : ∀ search ∈ next.searches, search ∈ peer.searches ∨
      ∀ ref, search.group = some ref → next.trut.Keyed ref) : next.Guarded where
  fresh := fresh
  refers ref referred := by
    rcases refers ref referred with old | live
    · exact later.live ref (guarded.refers ref old)
    · exact live
  searches search member ref grouped := by
    rcases searches search member with old | keyed
    · exact later.keyed ref (guarded.searches search old ref grouped)
    · exact keyed ref grouped

theorem Guarded.groups {peer next : Peer} (guarded : peer.Guarded)
    (later : peer.trut.Later next.trut) (fresh : next.trut.Fresh)
    (searches : next.searches = peer.searches) (shared : next.shared = peer.shared)
    (dirs : next.trut.collect.dirs = peer.trut.collect.dirs)
    (entries : ∀ entry ∈ next.trut.collect.entries,
      entry ∈ peer.trut.collect.entries ∨ entry.context = none) : next.Guarded := by
  refine guarded.later later fresh (fun ref referred => .inl ?_) fun search member => .inl ?_
  · rcases referred with found | found | found | ⟨entry, member, same⟩
    · exact .inl (searches ▸ found)
    · exact .inr (.inl (shared ▸ found))
    · exact .inr (.inr (.inl (dirs ▸ found)))
    · rcases entries entry member with old | none
      · exact .inr (.inr (.inr ⟨entry, old, same⟩))
      · rw [none] at same
        exact absurd same (by simp)
  · exact searches ▸ member

theorem joinGroup_guarded {peer : Peer} (guarded : peer.Guarded) (name : CString) (join : Bool)
    (accept : Option (Option CString → Int)) (guid : Bytes) :
    (peer.joinGroup name join accept guid).1.Guarded := by
  obtain ⟨later, fresh⟩ := joinGroup_later peer.trut guarded.fresh name accept
  have searching (ref : Nat) (live : (peer.trut.joinGroup name accept).Live ref) :
      (peer.searchKey ref name join accept guid).1.Guarded := by
    have collect : (peer.trut.joinGroup name accept).collect = peer.trut.collect := by
      simp only [Trut.joinGroup]
      split
      · rfl
      · split <;> rfl
    refine guarded.later later fresh (fun other referred => ?_) fun search member => ?_
    · rcases referred with ⟨search, member, found⟩ | found | found | found
      · rcases List.mem_cons.1 member with rfl | member
        · rcases found with same | same
          · exact .inr (Callback.findKey.inj same ▸ live)
          · exact absurd same (by simp)
        · exact .inl (.inl ⟨search, member, found⟩)
      · exact .inl (.inr (.inl found))
      · exact .inl (.inr (.inr (.inl (collect ▸ found))))
      · exact .inl (.inr (.inr (.inr (collect ▸ found))))
    · rcases List.mem_cons.1 member with rfl | member
      · exact .inr (by simp)
      · exact .inl member
  cases present : peer.trut.findGroup name.val with
  | none =>
    simp only [joinGroup, present]
    refine searching _ ⟨{ ref := peer.trut.allocated, name := name, accept := accept }, ?_, rfl⟩
    simp [Trut.joinGroup, present]
  | some group =>
    simp only [joinGroup, present]
    split
    · exact searching _ (later.live _ ⟨group, List.mem_of_find?_eq_some present, rfl⟩)
    · exact guarded

theorem rescan_refers {peer : Peer} {dirs : List Collection.Dir}
    {files : Collection.Dir → List (CString × Nat)} {ref : Nat}
    (found : ∃ entry ∈ ({ peer.trut.collect with dirs := dirs }.rescan ulong files).entries,
      entry.context = some ref) :
    (∃ dir ∈ dirs, dir.context = some ref) ∨
      ∃ entry ∈ peer.trut.collect.entries, entry.context = some ref := by
  obtain ⟨_, new, entries, all⟩ :=
    Collection.rescan_entries ulong { peer.trut.collect with dirs := dirs } files
  obtain ⟨entry, member, same⟩ := found
  rw [entries] at member
  rcases List.mem_append.1 member with member | member
  · obtain ⟨dir, inside, file, _, id, rfl⟩ := all entry member
    exact .inl ⟨dir, inside, same⟩
  · exact .inr ⟨entry, (List.mem_filter.1 member).1, same⟩

theorem Guarded.rescan {peer : Peer} (guarded : peer.Guarded) (shared : List Shared)
    (allocated : Nat) (dirs : List Collection.Dir) (files : Collection.Dir → List (CString × Nat))
    (sharedLive : ∀ share ∈ shared, ∀ ref, share.group = some ref →
      peer.Refers ref ∨ peer.trut.Live ref)
    (dirsLive : ∀ dir ∈ dirs, ∀ ref, dir.context = some ref →
      peer.Refers ref ∨ peer.trut.Live ref) :
    Guarded { peer with
      shared := shared
      allocated := allocated
      trut := { peer.trut with
        collect := { peer.trut.collect with dirs := dirs }.rescan ulong files } } := by
  have same := (Collection.rescan_entries ulong { peer.trut.collect with dirs := dirs } files).1
  refine guarded.later ⟨fun _ live => live, fun _ keyed => keyed⟩ guarded.fresh
    (fun ref referred => ?_) fun search member => .inl member
  rcases referred with found | ⟨share, member, here⟩ | ⟨dir, member, here⟩ | found
  · exact .inl (.inl found)
  · exact sharedLive share member ref here
  · simp only [same] at member
    exact dirsLive dir member ref here
  · rcases rescan_refers found with ⟨dir, member, here⟩ | old
    · exact dirsLive dir member ref here
    · exact .inl (.inr (.inr (.inr old)))

theorem findKey_guarded {peer : Peer} (ref : Nat) (name : Bytes) (guarded : peer.Guarded) :
    Guarded { peer with
      trut := peer.trut.findKey ref name
      fetching := ref :: peer.fetching } := by
  obtain ⟨later, fresh⟩ := findKey_later peer.trut ref name
  exact guarded.groups later (fresh guarded.fresh) rfl rfl rfl fun _ member => .inl member

theorem addKey_entries (trut : Trut) (name : CString) (data : Bytes) :
    ∀ entry ∈ (trut.addKey ulong name data).collect.entries,
      entry ∈ trut.collect.entries ∨ entry.context = none := by
  intro entry member
  rcases List.mem_cons.1 member with rfl | member
  · exact .inr rfl
  · exact .inl member

theorem searchStop_guarded {peer : Peer} (guarded : peer.Guarded) (context : Option Callback) :
    (peer.searchStop context).Guarded := by
  have kept : ∀ search ∈ (peer.searchStop context).searches, search ∈ peer.searches :=
    fun search member => (List.mem_filter.1 member).1
  refine guarded.later (Later.refl _) guarded.fresh (fun ref referred => .inl ?_)
    fun search member => .inl (kept search member)
  rcases referred with ⟨search, member, found⟩ | found
  · exact .inl ⟨search, kept search member, found⟩
  · exact .inr found

theorem wake_guarded {peer next : Peer} (guarded : peer.Guarded) {ref : Nat} {key : SessionKey}
    {outputs : List Output} (woken : peer.wake ulong ref key = .ok (next, outputs)) :
    next.Guarded := by
  have idle : ({ peer with waiting := peer.waiting.erase ref } : Peer).Guarded :=
    ⟨guarded.fresh, guarded.refers, guarded.searches⟩
  rcases wake_cases woken with ⟨rfl, _⟩ | ⟨group, found, _, result⟩
  · exact guarded
  · split at result
    next => exact result.1 ▸ idle
    next silent =>
      obtain ⟨later, fresh⟩ := joinCreate_later ulong peer.trut guarded.fresh ref key
      rw [result.1]
      refine (searchStop_guarded idle (some (.findKey ref))).groups later fresh rfl rfl ?_ ?_
      · simp only [Trut.joinCreate, searchStop, found, silent, if_false]
        rfl
      · simp only [Trut.joinCreate, searchStop, found, silent, if_false]
        exact addKey_entries _ _ _

theorem fetchKey_guarded {peer next : Peer} (guarded : peer.Guarded) {ref : Nat}
    {data : Option (Bytes × Nat)} {outputs : List Output}
    (fetched : peer.fetchKey ulong ref data = .ok (next, outputs)) : next.Guarded := by
  have idle : ({ peer with fetching := peer.fetching.erase ref } : Peer).Guarded :=
    ⟨guarded.fresh, guarded.refers, guarded.searches⟩
  rcases fetchKey_cases fetched with ⟨rfl, _⟩ | ⟨_, rfl, _⟩ |
    ⟨bytes, size, trut, _, _, installed, rfl, _⟩
  · exact guarded
  · exact idle
  · obtain ⟨later, fresh⟩ := fetchKey_later guarded.fresh installed
    obtain ⟨_, _, _, _, rfl⟩ := fetchKey_spec installed
    exact idle.groups later fresh rfl rfl rfl (addKey_entries _ _ _)

theorem leaveGroup_guarded {peer next : Peer} (guarded : peer.Guarded) {ref : Nat}
    {outputs : List Output} (unreferred : ¬ peer.Refers ref)
    (left : peer.leaveGroup ref = .ok (next, outputs)) : next.Guarded := by
  simp only [leaveGroup, Runs.bind_ok, Runs.pure_ok, Prod.mk.injEq] at left
  obtain ⟨_, _, rfl, _⟩ := left
  -- the others stay
  have live (other : Nat) (different : other ≠ ref) (before : peer.trut.Live other) :
      ∃ group ∈ peer.trut.groups.filter fun group => group.ref ≠ ref, group.ref = other := by
    obtain ⟨group, member, same⟩ := before
    exact ⟨group, List.mem_filter.2 ⟨member, by simpa [same] using different⟩, same⟩
  constructor
  · exact fun group member => guarded.fresh group (List.mem_filter.1 member).1
  · intro other referred
    have before : peer.Refers other := referred
    exact live other (fun same => unreferred (same ▸ before)) (guarded.refers other before)
  · intro search member other grouped
    have keyed := guarded.searches search member other grouped
    have different : other ≠ ref := fun same =>
      unreferred (same ▸ .inl ⟨search, member, .inr grouped⟩)
    exact ⟨live other different keyed.1,
      fun group inside same => keyed.2 group (List.mem_filter.1 inside).1 same⟩

theorem addShared_guarded {peer : Peer} (guarded : peer.Guarded) (path : CString)
    (ext : Option CString) {group : Option Nat} (files : Collection.Dir → List (CString × Nat))
    (live : ∀ ref, group = some ref → peer.trut.Live ref) :
    (peer.addShared ulong path ext group files).Guarded := by
  refine guarded.rescan _ _ (⟨path, ext, group⟩ :: peer.trut.collect.dirs) files ?_ ?_
  · intro share member ref here
    rcases List.mem_cons.1 member with rfl | member
    · exact .inr (live ref here)
    · exact .inl (.inr (.inl ⟨share, member, here⟩))
  · intro dir member ref here
    rcases List.mem_cons.1 member with rfl | member
    · exact .inr (live ref here)
    · exact .inl (.inr (.inr (.inl ⟨dir, member, here⟩)))

theorem updateShared_guarded {peer : Peer} (guarded : peer.Guarded) (shared : Nat)
    (ext : Option CString) {group : Option Nat} (files : Collection.Dir → List (CString × Nat))
    (live : ∀ ref, group = some ref → peer.trut.Live ref) :
    (peer.updateShared ulong shared ext group files).Guarded := by
  simp only [updateShared]
  split
  next => exact guarded
  next old _ =>
    refine guarded.rescan _ peer.allocated (⟨old.path, ext, group⟩ ::
      peer.trut.collect.dirs.filter fun dir => dir.path ≠ old.path) files ?_ ?_
    · intro share member ref here
      obtain ⟨before, inside, rfl⟩ := List.mem_map.1 member
      split at here
      · exact .inr (live ref here)
      · exact .inl (.inr (.inl ⟨before, inside, here⟩))
    · intro dir member ref here
      rcases List.mem_cons.1 member with rfl | member
      · exact .inr (live ref here)
      · exact .inl (.inr (.inr (.inl ⟨dir, (List.mem_filter.1 member).1, here⟩)))

theorem removeShared_guarded {peer : Peer} (guarded : peer.Guarded) (shared : Nat)
    (files : Collection.Dir → List (CString × Nat)) :
    (peer.removeShared ulong shared files).Guarded := by
  simp only [removeShared]
  split
  next => exact guarded
  next old _ =>
    refine guarded.rescan _ peer.allocated
      (peer.trut.collect.dirs.filter fun dir => dir.path ≠ old.path) files ?_ ?_
    · exact fun share member ref here =>
        .inl (.inr (.inl ⟨share, (List.mem_filter.1 member).1, here⟩))
    · exact fun dir member ref here =>
        .inl (.inr (.inr (.inl ⟨dir, (List.mem_filter.1 member).1, here⟩)))

theorem step_guarded {peer next : Peer} {op : Op} {outputs : List Output}
    (guarded : peer.Guarded) (careful : peer.Careful op)
    (stepped : peer.step ulong evp op = .ok (next, outputs)) : next.Guarded := by
  cases step_cases stepped with
  | joinGroup name join accept guid => exact joinGroup_guarded guarded name join accept guid
  | wake woken => exact wake_guarded guarded woken
  | leaveGroup left => exact leaveGroup_guarded guarded careful.2 left
  | search str context group guid iv =>
    refine guarded.later (Later.refl _) guarded.fresh (fun ref referred => ?_)
      fun search member => ?_
    · rcases referred with ⟨search, member, found⟩ | found
      · rcases List.mem_cons.1 member with rfl | member
        · rcases found with same | same
          · exact absurd same (by simp)
          · exact .inr (careful ref same).1
        · exact .inl (.inl ⟨search, member, found⟩)
      · exact .inl (.inr found)
    · rcases List.mem_cons.1 member with rfl | member
      · exact .inr fun ref same => careful ref same
      · exact .inl member
  | searchStop context => exact searchStop_guarded guarded context
  | addShared path ext group files => exact addShared_guarded guarded path ext files careful
  | updateShared shared ext group files =>
    exact updateShared_guarded guarded shared ext files careful
  | removeShared shared files => exact removeShared_guarded guarded shared files
  | response handled => exact (response_invariant Guarded findKey_guarded handled guarded).1
  | request => exact guarded
  | fetched fetched => exact fetchKey_guarded guarded fetched

theorem callback_safe {callback : Callback} {fault : Fault} (files : List File) :
    ∀ {peer : Peer}, peer.Guarded → (∀ ref, callback = .findKey ref → peer.trut.Live ref) →
    Peer.callback callback peer files ≠ .error fault := by
  induction files with
  | nil => simp [Peer.callback]
  | cons file files ih =>
    intro peer guarded live failed
    cases callback with
    | findKey ref =>
      simp only [Peer.callback, Runs.bind_error] at failed
      rcases failed with failed | ⟨middle, found, failed⟩
      · simp only [findKey, Runs.bind_error] at failed
        rcases failed with failed | ⟨group, _, failed⟩
        · exact deref_error (live ref rfl) failed
        · split at failed <;> simp at failed
      · rcases findKey_cases found with rfl | rfl
        · exact ih guarded live failed
        · obtain ⟨later, _⟩ := findKey_later peer.trut ref file.name
          exact ih (findKey_guarded ref file.name guarded)
            (fun other same => later.live other (live other same)) failed
    | user context =>
      simp only [Peer.callback, Runs.bind_error, Runs.pure_error, and_false, exists_false,
        or_false] at failed
      exact ih guarded (fun ref same => absurd same (by simp)) failed

theorem decryptAnswer_safe {trut : Trut} {group : Option Nat} {resp : Bytes} {fault : Fault}
    (keyed : ∀ ref, group = some ref → trut.Keyed ref)
    (failed : decryptAnswer evp trut group resp = .error fault) : fault = .undefined := by
  cases group with
  | none => simp [decryptAnswer] at failed
  | some ref =>
    have usable := keyed ref rfl
    simp only [decryptAnswer, Runs.bind_error] at failed
    rcases failed with failed | ⟨group, found, failed⟩
    · exact absurd failed (deref_error usable.1)
    · obtain ⟨key, used⟩ := usable.useKey (deref_ok.1 found)
      rcases failed with failed | ⟨_, _, failed⟩
      · simp [used] at failed
      · rcases failed with failed | ⟨⟨size, data⟩, _, failed⟩
        · exact orUndefined_error failed
        · simp only at failed
          split at failed <;> simp at failed

theorem readFiles_safe {payload : Bytes} {group : Option Nat} {fault : Fault}
    (failed : readFiles payload group = .error fault) : fault = .undefined := by
  cases payload with
  | nil => simpa [readFiles] using failed.symm
  | cons count rest =>
    simp only [readFiles, Runs.bind_error, Runs.pure_error, and_false, exists_false, or_false]
      at failed
    exact orUndefined_error failed

theorem response_safe {peer : Peer} (guarded : peer.Guarded) {resp : Bytes} {fault : Fault}
    (failed : peer.handleSearchResponse evp resp = .error fault) : fault = .undefined := by
  simp only [handleSearchResponse] at failed
  split at failed
  next => simp at failed
  next search found =>
    have member := List.mem_of_find?_eq_some found
    simp only [Runs.bind_error] at failed
    rcases failed with failed | ⟨payload, _, failed⟩
    · exact decryptAnswer_safe (guarded.searches search member) failed
    · cases payload with
      | none => simp at failed
      | some payload =>
        simp only [Runs.bind_error] at failed
        rcases failed with failed | ⟨files, _, failed⟩
        · exact readFiles_safe failed
        · exact absurd failed (callback_safe files guarded fun ref same =>
            guarded.refers ref (.inl ⟨search, member, .inl same⟩))

theorem answer_safe {trut : Trut} {answering : Answering} {guid pattern : Bytes} {key : Bool}
    {group : Option Group} {fault : Fault}
    (keyed : ∀ found, group = some found → found.key.isSome)
    (failed : answer evp trut answering guid pattern key group = .error fault) :
    fault = .undefined := by
  simp only [answer] at failed
  split at failed
  next => simp at failed
  next =>
    cases group with
    | none => simp at failed
    | some group =>
      obtain ⟨key, has⟩ := Option.isSome_iff_exists.1 (keyed group rfl)
      simp only [useKey_ok.2 has, Runs.bind_error, Except.ok.injEq, reduceCtorEq, false_or]
        at failed
      obtain ⟨_, _, failed | ⟨_, _, failed⟩⟩ := failed
      · exact orUndefined_error failed
      · simp at failed

theorem decryptPattern_safe {group : Group} {cipher : Bytes} {fault : Fault}
    (keyed : group.key.isSome) (failed : decryptPattern evp group cipher = .error fault) :
    fault = .undefined := by
  obtain ⟨key, has⟩ := Option.isSome_iff_exists.1 keyed
  simp only [decryptPattern, useKey_ok.2 has, Runs.bind_error, Except.ok.injEq, reduceCtorEq,
    false_or] at failed
  obtain ⟨_, _, failed | ⟨⟨size, plain⟩, _, failed⟩⟩ := failed
  · exact orUndefined_error failed
  · simp only at failed
    split at failed <;> simp at failed

theorem request_safe {trut : Trut} {answering : Answering} {rqst : Bytes} {fault : Fault}
    (keyed : ∀ str, searchText rqst = some str → ∀ group cipher,
      target trut str = .secure group cipher → group.key.isSome)
    (failed : handleSearchRequest evp trut answering rqst = .error fault) : fault = .undefined := by
  simp only [handleSearchRequest, Runs.bind_error] at failed
  rcases failed with failed | ⟨str, text, failed⟩
  · exact orUndefined_error failed
  · have known := keyed str (orUndefined_ok.1 text)
    cases aim : target trut str with
    | invalid => simp [aim] at failed
    | all key =>
      simp only [aim] at failed
      exact answer_safe (by simp) failed
    | secure group cipher =>
      have has := known group cipher aim
      simp only [aim, Runs.bind_error] at failed
      rcases failed with failed | ⟨pattern, _, failed⟩
      · exact decryptPattern_safe has failed
      · cases pattern with
        | none => simp at failed
        | some pattern =>
          refine answer_safe (fun found same => ?_) failed
          exact Option.some.inj same ▸ has

theorem searchString_safe {str : Bytes} {group : Option Group} {iv : Iv} {fault : Fault}
    (failed : searchString evp str group iv = .error fault) : fault = .undefined := by
  cases group with
  | none => simp [searchString] at failed
  | some group =>
    cases has : group.key with
    | none => simp [searchString, has] at failed
    | some key =>
      simp only [searchString, has, Runs.bind_error] at failed
      rcases failed with failed | ⟨⟨size, cipher⟩, _, failed⟩
      · exact orUndefined_error failed
      · simp only [Runs.pure_error, and_false, exists_false, or_false] at failed
        simp only [encodeQuery] at failed
        split at failed
        · simp at failed
        · exact orUndefined_error failed

theorem step_safe {peer : Peer} {op : Op} {fault : Fault} (guarded : peer.Guarded)
    (careful : peer.Careful op) (failed : peer.step ulong evp op = .error fault) :
    fault = .undefined := by
  cases op with
  | joinGroup name join accept guid => simp [step] at failed
  | wake ref key =>
    simp only [step, wake] at failed
    split at failed
    next => simp at failed
    next pending =>
      simp only [Runs.bind_error] at failed
      rcases failed with failed | ⟨group, _, failed⟩
      · exact absurd failed (deref_error (careful (Decidable.not_not.1 pending)))
      · split at failed <;> simp at failed
  | leaveGroup ref =>
    simp only [step, leaveGroup, Runs.bind_error, Runs.pure_error, and_false, exists_false,
      or_false] at failed
    exact absurd failed (deref_error careful.1)
  | search str context group guid iv =>
    simp only [step, search, Runs.bind_error, Runs.pure_error, and_false, exists_false,
      or_false] at failed
    rcases failed with failed | ⟨found, _, failed⟩
    · cases group with
      | none => simp [groupOf] at failed
      | some ref =>
        simp only [groupOf, Runs.bind_error, Runs.pure_error, and_false, exists_false,
          or_false] at failed
        exact absurd failed (deref_error (careful ref rfl).1)
    · exact searchString_safe failed
  | searchStop context => simp [step] at failed
  | addShared path ext group files => simp [step] at failed
  | updateShared shared ext group files => simp [step] at failed
  | removeShared shared files => simp [step] at failed
  | response resp => exact response_safe guarded failed
  | request rqst answering =>
    simp only [step, Runs.bind_error, Runs.pure_error, and_false, exists_false, or_false] at failed
    exact request_safe careful failed
  | fetched ref data =>
    simp only [step, fetchKey] at failed
    split at failed
    next => simp at failed
    next pending =>
      simp only [Runs.bind_error] at failed
      rcases failed with failed | ⟨group, _, failed⟩
      · exact absurd failed (deref_error (careful (Decidable.not_not.1 pending)))
      · cases data with
        | none => simp at failed
        | some data =>
          simp only [Runs.bind_error, Runs.pure_error, and_false, exists_false, or_false]
            at failed
          exact orUndefined_error failed

theorem start_guarded : start.Guarded := by
  refine ⟨?_, ?_, ?_⟩
  · exact fun group member => absurd member (by simp [start])
  · rintro ref (⟨_, member, _⟩ | ⟨_, member, _⟩ | ⟨_, member, _⟩ | ⟨_, member, _⟩)
    all_goals exact absurd member (by simp [start])
  · exact fun search member => absurd member (by simp [start])

theorem groups_used_live {last : Peer} {turns : List Turn} (run : Run ulong evp start turns last)
    (careful : ∀ turn ∈ turns, turn.state.Careful turn.op) :
    (∀ ref, last.Refers ref → last.trut.Live ref) ∧
      ∀ op fault, last.Careful op → last.step ulong evp op = .error fault → fault = .undefined := by
  have guarded : last.Guarded := run.invariant Guarded
    (fun holds allowed stepped => step_guarded holds allowed stepped) careful start_guarded
  exact ⟨guarded.refers, fun op fault => step_safe guarded⟩

instance (trut : Trut) (ref : Nat) : Decidable (trut.Live ref) :=
  inferInstanceAs (Decidable (∃ group ∈ trut.groups, group.ref = ref))

instance (trut : Trut) (ref : Nat) : Decidable (trut.Keyed ref) :=
  inferInstanceAs (Decidable
    (trut.Live ref ∧ ∀ group ∈ trut.groups, group.ref = ref → group.key.isSome))

instance (peer : Peer) (ref : Nat) : Decidable (peer.Refers ref) :=
  inferInstanceAs (Decidable
    ((∃ search ∈ peer.searches, search.callback = .findKey ref ∨ search.group = some ref) ∨
      (∃ shared ∈ peer.shared, shared.group = some ref) ∨
      (∃ dir ∈ peer.trut.collect.dirs, dir.context = some ref) ∨
      ∃ entry ∈ peer.trut.collect.entries, entry.context = some ref))

instance (peer : Peer) : (op : Op) → Decidable (peer.Careful op)
  | .leaveGroup ref => inferInstanceAs (Decidable (peer.trut.Live ref ∧ ¬ peer.Refers ref))
  | .search _ _ group _ _ =>
    inferInstanceAs (Decidable (∀ ref ∈ group, peer.trut.Keyed ref))
  | .addShared _ _ group _ => inferInstanceAs (Decidable (∀ ref ∈ group, peer.trut.Live ref))
  | .updateShared _ _ group _ => inferInstanceAs (Decidable (∀ ref ∈ group, peer.trut.Live ref))
  | .wake ref _ => inferInstanceAs (Decidable (ref ∈ peer.waiting → peer.trut.Live ref))
  | .fetched ref _ => inferInstanceAs (Decidable (ref ∈ peer.fetching → peer.trut.Live ref))
  | .request rqst _ => decidable_of_iff
      (∀ str ∈ searchText rqst, (target peer.trut str).keyed = true) (by
        refine forall₂_congr fun str _ => ?_
        cases target peer.trut str with
        | secure group cipher => simp [Target.keyed]
        | _ => simp [Target.keyed])
  | .joinGroup _ _ _ _ => isTrue trivial
  | .searchStop _ => isTrue trivial
  | .removeShared _ _ => isTrue trivial
  | .response _ => isTrue trivial

def lived : List Op :=
  [joining club, .wake 0 (Block.zero _), .addShared club none (some 0) fun _ => [(club, 3)],
    .search [42] 5 (some 0) (List.replicate 16 1) (Block.zero _),
    .request (searchRqst (List.replicate 16 2) [42]) ⟨1, 2, List.replicate 16 0, Block.zero _⟩,
    .searchStop (some (.user 5)), .removeShared 0 fun _ => [], .leaveGroup 0, joining club]

theorem groups_used_live_joined : ∃ turns last,
    Runs.execute (step 4294967296 Key.zeroCipher) start lived = some (turns, last) ∧
      (∀ turn ∈ turns, turn.state.Careful turn.op) ∧ last.trut.groups.map Group.ref = [1] ∧
      (∀ ref, last.Refers ref → last.trut.Live ref) ∧
      ∀ op fault, last.Careful op → last.step 4294967296 Key.zeroCipher op = .error fault →
        fault = .undefined := by
  obtain ⟨turns, last, executed, same⟩ := @Runs.execute_any _ _ _ _
    (step 4294967296 Key.zeroCipher) start lived (fun turns last => decide
      ((∀ turn ∈ turns, turn.state.Careful turn.op) ∧ last.trut.groups.map Group.ref = [1]))
    (by decide +kernel)
  obtain ⟨careful, left⟩ := of_decide_eq_true same
  exact ⟨turns, last, executed, careful, left, groups_used_live (.of_execute executed) careful⟩

-- the search for the key still has the group as its context
theorem groups_used_left : ¬ ∀ (turns : List Turn) (last : Peer),
    Run 4294967296 Key.zeroCipher start turns last → (∀ ref, last.Refers ref → last.trut.Live ref) ∧
      ∀ op fault, (∃ resp, op = .response resp) ∨ (∃ rqst answering, op = .request rqst answering) →
        last.step 4294967296 Key.zeroCipher op = .error fault → fault = .undefined := by
  intro always
  have run : Run 4294967296 Key.zeroCipher start
    [⟨_, joining club, _⟩, ⟨joinedOnce, .leaveGroup 0, _⟩] _ := .cons rfl (.cons rfl (.nil _))
  obtain ⟨group, member, _⟩ := (always _ _ run).1 0 (.inl ⟨_, List.mem_cons_self, .inl rfl⟩)
  exact List.not_mem_nil member

end Peer
