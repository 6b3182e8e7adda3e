import Mathlib.Data.List.Nodup
import Mathlib.Logic.Relation
import Ptptl.Trut.Peer

set_option autoImplicit false

/-! # The key of a group and its place in the collection -/

namespace Trut

open Ptp

variable {ulong : Nat}

/-- What an operation does to the groups and to the collection, when no group with a key is left
and keys are fetched whole, and for groups without one. -/
inductive Move (ulong : Nat) : Trut → Trut → Prop where
  | joinGroup (trut : Trut) (name : CString) (accept : Option (Option CString → Int)) :
    Move ulong trut (trut.joinGroup name accept)
  | joinCreate (trut : Trut) (ref : Nat) (key : SessionKey) :
    Move ulong trut (trut.joinCreate ulong ref key)
  | leaveGroup (trut : Trut) (ref : Nat)
    (keyless : ∀ group, trut.group ref = some group → group.key = none) :
    Move ulong trut { trut with groups := trut.groups.filter fun group => group.ref ≠ ref }
  | findKey (trut : Trut) (ref : Nat) (fileName : Bytes) :
    Move ulong trut (trut.findKey ref fileName)
  | fetchKey {trut next : Trut} {ref : Nat} {data : Bytes}
    (keyless : ∀ group, trut.group ref = some group → group.key = none)
    (fetched : trut.fetchKey ulong ref data sessionKeySize = some next) : Move ulong trut next
  | rescan (trut : Trut) (dirs : List Collection.Dir)
    (files : Collection.Dir → List (CString × Nat)) :
    Move ulong trut { trut with collect := { trut.collect with dirs := dirs }.rescan ulong files }

/-- The group of a key entry is the peer's group of that name, and has the key. -/
def Published (trut : Trut) (entry : Collection.Entry) : Prop :=
  ∀ name, entry.getName = keyName name → ∃ group ∈ trut.groups, ∃ key, group.name = name ∧
    group.key = some key ∧ entry.content = .data (keyName name) key.val

structure Consistent (trut : Trut) : Prop where
  fresh : ∀ group ∈ trut.groups, group.ref < trut.allocated
  refs : (trut.groups.map Group.ref).Nodup
  names : (trut.groups.map Group.name).Nodup
  published : ∀ entry ∈ trut.collect.entries, trut.Published entry
  once : trut.collect.entries.Pairwise fun entry other =>
    ∀ name, entry.getName = keyName name → other.getName ≠ keyName name

structure Keeps (old trut : Trut) : Prop where
  fresh : ∀ group ∈ old.groups, group.ref < old.allocated
  allocated : old.allocated ≤ trut.allocated
  keys : ∀ group ∈ old.groups, ∀ later ∈ trut.groups, later.ref = group.ref →
    ∀ key, group.key = some key → later.key = some key

theorem Consistent.start : Consistent {} :=
  ⟨by simp, List.nodup_nil, List.nodup_nil, by simp, List.Pairwise.nil⟩

theorem Keeps.refl {trut : Trut} (consistent : trut.Consistent) : trut.Keeps trut := by
  refine ⟨consistent.fresh, Nat.le_refl _, fun group member later also same key keyed => ?_⟩
  have equal := List.inj_on_of_nodup_map consistent.refs also member same
  exact equal ▸ keyed

theorem Consistent.group {trut : Trut} (consistent : trut.Consistent) {group : Group}
    (member : group ∈ trut.groups) : trut.group group.ref = some group := by
  cases found : trut.group group.ref with
  | none => exact absurd (List.find?_eq_none.1 found group member) (by simp)
  | some other =>
    rw [List.inj_on_of_nodup_map consistent.refs (List.mem_of_find?_eq_some found) member
      (group_ref found)]

theorem Consistent.findGroup {trut : Trut} (consistent : trut.Consistent) {group : Group}
    (member : group ∈ trut.groups) : trut.findGroup group.name.val = some group := by
  cases found : trut.findGroup group.name.val with
  | none => exact absurd (List.find?_eq_none.1 found group member) (by simp)
  | some other =>
    have named := List.find?_some found
    rw [List.inj_on_of_nodup_map consistent.names (List.mem_of_find?_eq_some found) member
      (Subtype.ext (by simpa using named))]

theorem Consistent.update {old trut : Trut} (consistent : trut.Consistent) (keeps : old.Keeps trut)
    (ref : Nat) (change : Group → Group)
    (same : ∀ group, (change group).ref = group.ref ∧ (change group).name = group.name)
    (kept : ∀ group, trut.group ref = some group → ∀ key, group.key = some key →
      (change group).key = some key) :
    (trut.update ref change).Consistent ∧ old.Keeps (trut.update ref change) := by
  have changed (group : Group) : (if group.ref = ref then change group else group).ref = group.ref ∧
      (if group.ref = ref then change group else group).name = group.name := by
    split
    · exact same group
    · exact ⟨rfl, rfl⟩
  have keyed (group : Group) (member : group ∈ trut.groups) (key : SessionKey)
      (has : group.key = some key) :
      (if group.ref = ref then change group else group).key = some key := by
    split
    next here =>
      have found := consistent.group member
      rw [here] at found
      exact kept group found key has
    next => exact has
  constructor
  · constructor
    · intro group member
      obtain ⟨before, inside, rfl⟩ := List.mem_map.1 member
      rw [(changed before).1]
      exact consistent.fresh before inside
    · have refs : (trut.update ref change).groups.map Group.ref = trut.groups.map Group.ref := by
        simp only [Trut.update, List.map_map]
        exact List.map_congr_left fun group _ => (changed group).1
      rw [refs]
      exact consistent.refs
    · have names : (trut.update ref change).groups.map Group.name = trut.groups.map Group.name := by
        simp only [Trut.update, List.map_map]
        exact List.map_congr_left fun group _ => (changed group).2
      rw [names]
      exact consistent.names
    · intro entry member name named
      obtain ⟨group, inside, key, called, has, content⟩ :=
        consistent.published entry member name named
      refine ⟨_, List.mem_map.2 ⟨group, inside, rfl⟩, key, ?_, keyed group inside key has, content⟩
      rw [(changed group).2]
      exact called
    · exact consistent.once
  · refine ⟨keeps.fresh, keeps.allocated, fun group member later also equal key has => ?_⟩
    obtain ⟨before, inside, rfl⟩ := List.mem_map.1 also
    rw [(changed before).1] at equal
    exact keyed before inside key (keeps.keys group member before inside equal key has)

theorem Consistent.addKey {old trut : Trut} (consistent : trut.Consistent) (keeps : old.Keeps trut)
    {ref : Nat} {group : Group} (found : trut.group ref = some group) (keyless : group.key = none)
    (key : SessionKey) :
    let next := (trut.update ref fun group => { group with key := some key }).addKey ulong
      group.name key.val
    next.Consistent ∧ old.Keeps next := by
  have inside := List.mem_of_find?_eq_some found
  obtain ⟨updated, kept⟩ := consistent.update keeps ref
    (fun group => { group with key := some key }) (fun _ => ⟨rfl, rfl⟩)
    fun other also key' has => by
      rw [found, Option.some.injEq] at also
      rw [← also, keyless] at has
      exact absurd has (by simp)
  -- the name is not yet published: its group has no key
  have new : ∀ entry ∈ trut.collect.entries, entry.getName ≠ keyName group.name := by
    intro entry member named
    obtain ⟨other, also, key', called, has, _⟩ :=
      consistent.published entry member group.name named
    have same := List.inj_on_of_nodup_map consistent.names also inside called
    rw [same, keyless] at has
    exact absurd has (by simp)
  refine ⟨⟨updated.fresh, updated.refs, updated.names, ?_, ?_⟩, ⟨kept.fresh, kept.allocated, kept.keys⟩⟩
  · intro entry member name named
    rcases List.mem_cons.1 member with rfl | member
    · have same : group.name = name := keyName_injective named
      refine ⟨{ group with key := some key }, ?_, key, same, rfl, by rw [← same]⟩
      exact List.mem_map.2 ⟨group, inside, by simp [group_ref found]⟩
    · exact updated.published entry member name named
  · refine List.Pairwise.cons (fun entry member name named => ?_) updated.once
    have same : group.name = name := keyName_injective named
    exact same ▸ new entry member

theorem Consistent.newGroup {old trut : Trut} (consistent : trut.Consistent)
    (keeps : old.Keeps trut) {name : CString} (absent : trut.findGroup name.val = none)
    (accept : Option (Option CString → Int)) :
    let next : Trut := { trut with
      groups := { ref := trut.allocated, name := name, accept := accept } :: trut.groups
      allocated := trut.allocated + 1 }
    next.Consistent ∧ old.Keeps next := by
  refine ⟨⟨?_, ?_, ?_, ?_, consistent.once⟩, keeps.fresh, ?_, ?_⟩
  · intro group member
    rcases List.mem_cons.1 member with rfl | member
    · exact Nat.lt_succ_self _
    · exact Nat.lt_succ_of_lt (consistent.fresh group member)
  · refine List.nodup_cons.2 ⟨fun member => ?_, consistent.refs⟩
    obtain ⟨group, inside, same⟩ := List.mem_map.1 member
    have below := consistent.fresh group inside
    rw [same] at below
    exact absurd below (Nat.lt_irrefl _)
  · refine List.nodup_cons.2 ⟨fun member => ?_, consistent.names⟩
    obtain ⟨group, inside, same⟩ := List.mem_map.1 member
    exact absurd (List.find?_eq_none.1 absent group inside) (by simp [same])
  · intro entry member name' named
    obtain ⟨group, inside, rest⟩ := consistent.published entry member name' named
    exact ⟨group, List.mem_cons_of_mem _ inside, rest⟩
  · exact Nat.le_succ_of_le keeps.allocated
  · intro group member later also same key keyed
    rcases List.mem_cons.1 also with rfl | also
    · have below := keeps.fresh group member
      have above : trut.allocated = group.ref := same
      have := keeps.allocated
      omega
    · exact keeps.keys group member later also same key keyed

theorem Consistent.withoutGroup {old trut : Trut} (consistent : trut.Consistent)
    (keeps : old.Keeps trut) {ref : Nat}
    (keyless : ∀ group, trut.group ref = some group → group.key = none) :
    let next : Trut := { trut with groups := trut.groups.filter fun group => group.ref ≠ ref }
    next.Consistent ∧ old.Keeps next := by
  have fewer : (trut.groups.filter fun group => group.ref ≠ ref).Sublist trut.groups :=
    List.filter_sublist
  refine ⟨⟨?_, consistent.refs.sublist (fewer.map _), consistent.names.sublist (fewer.map _), ?_,
    consistent.once⟩, keeps.fresh, keeps.allocated, ?_⟩
  · exact fun group member => consistent.fresh group (fewer.subset member)
  · intro entry member name named
    obtain ⟨group, inside, key, called, has, content⟩ :=
      consistent.published entry member name named
    -- the group that is left has no key
    have other : group.ref ≠ ref := by
      rintro rfl
      rw [keyless group (consistent.group inside)] at has
      exact absurd has (by simp)
    exact ⟨group, List.mem_filter.2 ⟨inside, by simpa using other⟩, key, called, has, content⟩
  · exact fun group member later also => keeps.keys group member later (fewer.subset also)

theorem Consistent.rescan {trut : Trut} (ulong : Nat) (consistent : trut.Consistent)
    (dirs : List Collection.Dir) (files : Collection.Dir → List (CString × Nat)) :
    Consistent { trut with
      collect := { trut.collect with dirs := dirs }.rescan ulong files } := by
  obtain ⟨_, new, entries, all⟩ :=
    Collection.rescan_entries ulong { trut.collect with dirs := dirs } files
  have unnamed : ∀ entry ∈ new, ∀ name, entry.getName ≠ keyName name := by
    intro entry member name named
    obtain ⟨dir, _, file, _, id, rfl⟩ := all entry member
    have plain := Collection.baseName_plain file.1
    rw [show Collection.baseName file.1 = keyName name from named] at plain
    exact plain (slash_keyName name)
  refine ⟨consistent.fresh, consistent.refs, consistent.names, ?_, ?_⟩
  · intro entry member name named
    rw [entries] at member
    rcases List.mem_append.1 member with member | member
    · exact absurd named (unnamed entry member name)
    · exact consistent.published entry (List.mem_filter.1 member).1 name named
  · rw [entries]
    refine List.pairwise_append.2 ⟨?_, consistent.once.sublist List.filter_sublist, ?_⟩
    · exact List.pairwise_of_forall_mem_list fun entry member other _ name named =>
        absurd named (unnamed entry member name)
    · exact fun entry member other _ name named => absurd named (unnamed entry member name)

theorem Consistent.move {old trut next : Trut} (move : Move ulong trut next)
    (consistent : trut.Consistent) (keeps : old.Keeps trut) :
    next.Consistent ∧ old.Keeps next := by
  cases move with
  | joinGroup name accept =>
    simp only [joinGroup]
    split
    next absent => exact consistent.newGroup keeps absent accept
    next group found =>
      split
      · exact consistent.update keeps _ _ (fun _ => ⟨rfl, rfl⟩) fun _ _ _ has => has
      · exact ⟨consistent, keeps⟩
  | joinCreate ref key =>
    simp only [joinCreate]
    cases found : trut.group ref with
    | none => exact ⟨consistent, keeps⟩
    | some group =>
      simp only
      split
      · exact ⟨consistent, keeps⟩
      next keyless =>
        exact consistent.addKey keeps found (by simp_all) key
  | leaveGroup ref keyless => exact consistent.withoutGroup keeps keyless
  | findKey ref fileName =>
    refine consistent.update keeps ref _ (fun group => ?_) fun group _ key has => ?_
    · split <;> exact ⟨rfl, rfl⟩
    · split <;> exact has
  | fetchKey keyless fetched =>
    obtain ⟨group, found, long, _, rfl⟩ := fetchKey_spec fetched
    rw [← Block.ofBytes_val long]
    exact consistent.addKey keeps found (keyless group found) _
  | rescan dirs files =>
    exact ⟨consistent.rescan ulong dirs files, keeps.fresh, keeps.allocated, keeps.keys⟩

end Trut

namespace Peer

open Ptp Trut Gnutella

variable {ulong : Nat} {evp : Cipher}

def Orderly (peer : Peer) : Op → Prop
  | .leaveGroup ref => ∀ group, peer.trut.group ref = some group → group.key = none
  | .fetched ref (some (_, size)) => ref ∈ peer.fetching →
    size = sessionKeySize ∧ ∀ group, peer.trut.group ref = some group → group.key = none
  | _ => True

def SameKeys (old peer : Peer) : Prop :=
  ∀ ref group key later, old.trut.group ref = some group → group.key = some key →
    peer.trut.group ref = some later → later.key = some key

def PublishedOnce (peer : Peer) : Prop :=
  ∀ name, (peer.trut.collect.entries.filter fun entry => entry.getName = keyName name).length ≤ 1 ∧
    ∀ entry ∈ peer.trut.collect.entries, entry.getName = keyName name →
      ∃ group key, peer.trut.findGroup name.val = some group ∧ group.key = some key ∧
        entry.content = .data (keyName name) key.val

abbrev Moves (ulong : Nat) : Trut → Trut → Prop := Relation.ReflTransGen (Move ulong)

theorem step_moves {peer next : Peer} {op : Op} {outputs : List Output}
    (orderly : peer.Orderly op) (stepped : peer.step ulong evp op = .ok (next, outputs)) :
    Moves ulong peer.trut next.trut := by
  refine step_trut (Moves ulong peer.trut) stepped .refl
    (fun name accept => .single (.joinGroup _ name accept))
    (fun ref key => .single (.joinCreate _ ref key)) (fun ref leaves => ?_)
    (fun dirs files => .single (.rescan _ dirs files))
    (fun ref name moves => moves.tail (.findKey _ ref name)) fun fetched pending installed => ?_
  · subst leaves
    exact .single (.leaveGroup _ ref orderly)
  · subst fetched
    obtain ⟨rfl, keyless⟩ := orderly pending
    exact .single (.fetchKey keyless installed)

theorem moves_keep {old trut next : Trut} (moves : Moves ulong trut next)
    (consistent : trut.Consistent) (keeps : old.Keeps trut) :
    next.Consistent ∧ old.Keeps next := by
  induction moves with
  | refl => exact ⟨consistent, keeps⟩
  | tail _ move ih => exact Consistent.move move ih.1 ih.2

theorem run_keeps (old : Peer) {first last : Peer} {turns : List Turn} (run : Run ulong evp first turns last)
    (orderly : ∀ turn ∈ turns, turn.state.Orderly turn.op) (consistent : first.trut.Consistent)
    (keeps : old.trut.Keeps first.trut) : last.trut.Consistent ∧ old.trut.Keeps last.trut :=
  run.invariant (fun peer => peer.trut.Consistent ∧ old.trut.Keeps peer.trut)
    (fun holds allowed stepped => moves_keep (step_moves allowed stepped) holds.1 holds.2)
    orderly ⟨consistent, keeps⟩

theorem publishedOnce {peer : Peer} (consistent : peer.trut.Consistent) : peer.PublishedOnce := by
  intro name
  constructor
  · have fewer : (peer.trut.collect.entries.filter fun entry =>
        entry.getName = keyName name).Sublist peer.trut.collect.entries := List.filter_sublist
    have alone := consistent.once.sublist fewer
    cases found : peer.trut.collect.entries.filter fun entry => entry.getName = keyName name with
    | nil => simp
    | cons entry rest =>
      cases rest with
      | nil => simp
      | cons other rest =>
        have named (entry : Collection.Entry)
            (member : entry ∈ peer.trut.collect.entries.filter
              fun entry => entry.getName = keyName name) : entry.getName = keyName name := by
          simpa using (List.mem_filter.1 member).2
        rw [found] at alone named
        exact absurd (named other (by simp))
          (List.rel_of_pairwise_cons alone List.mem_cons_self name (named entry (by simp)))
  · intro entry member named
    obtain ⟨group, inside, key, called, has, content⟩ := consistent.published entry member name named
    have found := consistent.findGroup inside
    rw [called] at found
    exact ⟨group, key, found, has, content⟩

theorem key_once {middle last : Peer} {turns more : List Turn}
    (run : Run ulong evp start turns middle) (rest : Run ulong evp middle more last)
    (orderly : ∀ turn ∈ turns ++ more, turn.state.Orderly turn.op) :
    SameKeys middle last ∧ last.PublishedOnce := by
  have before := run_keeps start run
    (fun turn member => orderly turn (List.mem_append_left _ member)) Consistent.start
    (Keeps.refl Consistent.start)
  have after := run_keeps middle rest
    (fun turn member => orderly turn (List.mem_append_right _ member)) before.1
    (Keeps.refl before.1)
  refine ⟨fun ref group key later found keyed also => ?_, publishedOnce after.1⟩
  refine after.2.keys group (List.mem_of_find?_eq_some found) later
    (List.mem_of_find?_eq_some also) ?_ key keyed
  rw [group_ref also, group_ref found]

def offer : Bytes :=
  packet (List.replicate 16 0) 0x81
    (answerPayload ⟨0, 6346, List.replicate 16 0, Block.zero _⟩ [⟨0, 16, ascii "key"⟩])

def fetchedKey (byte : Byte) : Op := .fetched 0 (some (List.replicate 16 byte, 16))

def fetchedOnce : Peer :=
  [joining club, .response offer, .response offer, fetchedKey 1].foldl
    (fun peer op =>
      match peer.step 4294967296 Key.zeroCipher op with
      | .ok (next, _) => next
      | .error _ => peer) start

theorem key_once_created : ∃ (turns more : List Turn) (middle last : Peer),
    Run 4294967296 Key.zeroCipher start turns middle ∧
      Run 4294967296 Key.zeroCipher middle more last ∧ SameKeys middle last ∧ last.PublishedOnce := by
  have run : Run 4294967296 Key.zeroCipher start [⟨_, joining club, _⟩] joinedOnce :=
    .cons rfl (.nil _)
  have rest : Run 4294967296 Key.zeroCipher joinedOnce
    [⟨_, .wake 0 (Block.zero _), _⟩] _ := .cons rfl (.nil _)
  refine ⟨_, _, _, _, run, rest, key_once run rest ?_⟩
  intro turn member
  simp only [List.cons_append, List.nil_append, List.mem_cons, List.not_mem_nil, or_false] at member
  rcases member with rfl | rfl <;> trivial

-- the second key replaces the first
theorem key_replaced : ¬ ∀ (turns more : List Turn) (middle last : Peer),
    Run 4294967296 Key.zeroCipher start turns middle →
      Run 4294967296 Key.zeroCipher middle more last → SameKeys middle last ∧ last.PublishedOnce := by
  intro always
  have run : Run 4294967296 Key.zeroCipher start [⟨_, joining club, _⟩, ⟨_, .response offer, _⟩,
    ⟨_, .response offer, _⟩, ⟨_, fetchedKey 1, _⟩] fetchedOnce :=
    .cons rfl (.cons rfl (.cons rfl (.cons rfl (.nil _))))
  have rest : Run 4294967296 Key.zeroCipher fetchedOnce [⟨_, fetchedKey 2, _⟩] _ := .cons rfl (.nil _)
  have same := (always _ _ _ _ run rest).1 0 _ _ _ rfl rfl rfl
  exact absurd same (by decide)

end Peer
