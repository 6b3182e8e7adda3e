import Ptptl.Ptp.Pattern
import Ptptl.Trut.Answers
import Ptptl.Trut.Mirror

set_option autoImplicit false

/-! # How the key of a group is found -/

open Ptp Ptp.Collection Trut CInt Gnutella

namespace Trut

def Unowned (trut : Trut) : Prop :=
  ∀ entry ∈ trut.collect.entries, ∀ name data, entry.content = .data name data →
    entry.context = none

variable {ulong : Nat} {trut : Trut}

theorem Unowned.addKey (unowned : trut.Unowned) (name : CString) (data : Bytes) :
    (trut.addKey ulong name data).Unowned := by
  intro entry member
  rcases List.mem_cons.1 member with rfl | member
  · exact fun _ _ _ => rfl
  · exact unowned entry member

theorem Unowned.update (unowned : trut.Unowned) (ref : Nat) (change : Group → Group) :
    (trut.update ref change).Unowned := unowned

theorem Unowned.joinCreate (unowned : trut.Unowned) (ref : Nat) (key : SessionKey) :
    (trut.joinCreate ulong ref key).Unowned := by
  unfold Trut.joinCreate
  split
  next => exact unowned
  next group _ =>
    split
    next => exact unowned
    next => exact (unowned.update ref _).addKey group.name key.val

theorem Unowned.rescan (unowned : trut.Unowned) (dirs : List Dir)
    (files : Dir → List (CString × Nat)) :
    Unowned { trut with collect := { trut.collect with dirs := dirs }.rescan ulong files } := by
  refine Collection.rescan_forall ulong _ files _ unowned fun dir file id name data content => ?_
  simp [scanned] at content

end Trut

namespace Peer

variable {ulong : Nat} {evp : Cipher} {peer next : Peer} {outputs : List Output}

theorem step_unowned {op : Op} (unowned : peer.trut.Unowned)
    (stepped : peer.step ulong evp op = .ok (next, outputs)) : next.trut.Unowned := by
  refine step_trut Trut.Unowned stepped unowned (fun name accept => ?_)
    (fun ref key => unowned.joinCreate ref key) (fun ref _ => unowned)
    (fun dirs files => unowned.rescan dirs files) (fun ref name unowned => unowned)
    fun _ _ installed => ?_
  · rw [Unowned, joinGroup_shares]
    exact unowned
  · obtain ⟨group, _, _, _, rfl⟩ := Trut.fetchKey_spec installed
    exact (unowned.update _ _).addKey group.name _

theorem run_unowned {turns : List Turn} (run : Run ulong evp start turns peer) :
    peer.trut.Unowned :=
  run.stable (fun peer => peer.trut.Unowned) step_unowned (by simp [Unowned, start])

theorem joinGroup_search {name : CString} {join : Bool}
    {accept : Option (Option CString → Int)} {guid rqst : Bytes}
    (sent : .search rqst ∈ (peer.joinGroup name join accept guid).2) :
    rqst = searchRqst guid (keyName name).val := by
  cases found : peer.trut.findGroup name.val with
  | none => simpa [joinGroup, found, searchKey] using sent
  | some group =>
    by_cases keyed : group.key.isSome
    · simpa [joinGroup, found, keyed, searchKey] using sent
    · simp only [joinGroup, found, keyed, if_false, Bool.false_eq_true, report] at sent
      split at sent <;> simp at sent

end Peer

namespace Trut

def AnswersKey (evp : Cipher) (trut : Trut) (rqst : Bytes) (entry : Entry) : Prop :=
  ∃ pattern key group, asked evp trut rqst = .ok (some (pattern, key, group)) ∧
    entry ∈ matching trut pattern (group.map Group.ref) ∧
    (searchEntry key entry).name = ascii "key"

variable {evp : Cipher} {trut : Trut}

set_option maxRecDepth 4000 in
theorem plain_path : (∀ char ∈ ascii "/secure/", Plain char) ∧
    (∀ char ∈ ascii "/key", Plain char) := by
  decide

theorem cmpPat_keyName (asking held : CString) :
    cmpPat (keyName asking).val (keyName held).val = true ↔
      held.val ∈ Glob.language toupper (tokens asking.val) := by
  have back := append_word plain_path.2 (by decide) asking.val
  have front := word_append plain_path.1 (asking.val ++ ascii "/key")
  have pattern : (keyName asking).val = ascii "/secure/" ++ (asking.val ++ ascii "/key") := by
    simp [keyName]
  have name : (keyName held).val = ascii "/secure/" ++ (held.val ++ ascii "/key") := by
    simp [keyName]
  rw [(cmpPat_correct _).here, Matches, pattern, name, front.1, front.2, back.1, back.2,
    Glob.append_mem_word rfl, Glob.mem_append_word rfl]
  simp

theorem target_keyName (trut : Trut) (name : CString) :
    target trut (keyName name).val = .all true ↔ slash ∉ name.val := by
  have start : (keyName name).val = securePrefix ++ (name.val ++ slash :: ascii "key") := by
    simp [keyName, securePrefix, show ascii "/key" = slash :: ascii "key" from rfl]
  by_cases slashed : slash ∈ name.val
  next =>
    obtain ⟨front, back, split, plain⟩ := List.eq_append_cons_of_mem slashed
    have long : back ++ slash :: ascii "key" ≠ ascii "key" := by
      intro same
      have lengths := congrArg List.length same
      rw [List.length_append, List.length_cons] at lengths
      omega
    rw [start, split, List.append_assoc, List.cons_append, target_split trut plain, if_neg long]
    simp only [List.mem_append, List.mem_cons, true_or, or_true, not_true, iff_false]
    split <;> simp
  next =>
    rw [start, target_split trut slashed, if_pos rfl]
    simp [slashed]

theorem keyName_ne_key (name : CString) : (keyName name).val ≠ ascii "key" := by
  intro same
  have slashed := slash_keyName name
  rw [same] at slashed
  exact absurd slashed (by decide)

theorem asked_key {rqst str : Bytes} (text : searchText rqst = some str) {pattern : Bytes}
    {group : Option Group} :
    asked evp trut rqst = .ok (some (pattern, true, group)) ↔
      target trut str = .all true ∧ str = pattern ∧ group = none := by
  simp only [asked, text, orUndefined, bind, Except.bind, pure, Except.pure]
  cases target trut str with
  | invalid => simp
  | all key =>
    simp only [Except.ok.injEq, Option.some.injEq, Prod.mk.injEq, Target.all.injEq]
    constructor
    · rintro ⟨same, isKey, none⟩
      exact ⟨isKey, same, none.symm⟩
    · rintro ⟨isKey, same, none⟩
      exact ⟨same, isKey, none.symm⟩
  | secure member cipher =>
    cases decrypted : decryptPattern evp member cipher with
    | error fault => simp [decrypted]
    | ok plain => cases plain <;> simp [decrypted]

theorem answersKey_iff (unowned : trut.Unowned) {entry : Entry}
    (member : entry ∈ trut.collect.entries) {held asking : CString} {data : Bytes}
    (key : entry.content = .data (keyName held) data) {guid : Bytes} (whole : guid.length = 16) :
    AnswersKey evp trut (searchRqst guid (keyName asking).val) entry ↔
      slash ∉ asking.val ∧ held.val ∈ Glob.language toupper (tokens asking.val) := by
  have text := searchText_searchRqst whole (keyName asking).property
  have name : entry.getName = keyName held := by simp [Entry.getName, key]
  have context := unowned entry member _ _ key
  rw [← cmpPat_keyName, ← target_keyName trut]
  constructor
  next =>
    rintro ⟨pattern, isKey, group, asks, matched, called⟩
    cases isKey with
    | false => exact absurd ((congrArg Subtype.val name).symm.trans called) (keyName_ne_key held)
    | true =>
      obtain ⟨plain, rfl, rfl⟩ := (asked_key text).1 asks
      have found := (List.mem_filter.1 (List.mem_filter.1 matched).1).2
      rw [name] at found
      exact ⟨plain, found⟩
  next =>
    rintro ⟨plain, matched⟩
    refine ⟨(keyName asking).val, true, none, (asked_key text).2 ⟨plain, rfl, rfl⟩, ?_, rfl⟩
    simp [matching, findPat, member, name, matched, context]

theorem AnswersKey.packet {rqst : Bytes} {entry : Entry} (answers : AnswersKey evp trut rqst entry)
    (other : entry.getName.val ≠ ascii "key") (answering : Answering) : ∃ entries,
    handleSearchRequest evp trut answering rqst =
        .ok (some (packet (Gnutella.guid rqst) 0x81 (answerPayload answering entries))) ∧
      { ref := entry.id, size := entry.getSize, name := ascii "key" } ∈ entries := by
  obtain ⟨pattern, isKey, group, asks, matched, called⟩ := answers
  cases isKey with
  | false => exact absurd called other
  | true =>
    cases text : searchText rqst with
    | none => simp [asked, text, orUndefined, bind, Except.bind] at asks
    | some str =>
      obtain ⟨_, rfl, rfl⟩ := (asked_key text).1 asks
      have present : matching trut str none ≠ [] := List.ne_nil_of_mem matched
      refine ⟨(matching trut str none).map (searchEntry true), ?_, List.mem_map.2 ⟨entry, matched, rfl⟩⟩
      rw [handleSearchRequest_asked, asks]
      simp only [bind, Except.bind, answer, Option.map_none]
      exact if_neg present

end Trut

namespace Peer

/-- When the search for the key of one name is answered with the key of another exactly if they
are the same name: never for a name with a slash, else for the names that its glob matches. -/
def Discoverable (asking held : CString) : Prop :=
  if asking = held then slash ∉ held.val ∧ held.val ∈ Glob.language toupper (tokens held.val)
  else slash ∈ asking.val ∨ held.val ∉ Glob.language toupper (tokens asking.val)

variable {ulong : Nat} {evp : Cipher} {holder joiner : Peer} {turns : List Turn} {entry : Entry}
  {held asking : CString} {data guid rqst : Bytes} {join : Bool}
  {accept : Option (Option CString → Int)}

theorem answersKey_plain (run : Run ulong evp start turns holder)
    (member : entry ∈ holder.trut.collect.entries)
    (key : entry.content = .data (keyName held) data) (whole : guid.length = 16)
    (asks : .search rqst ∈ (joiner.joinGroup asking join accept guid).2)
    (plain : ∀ char ∈ asking.val, char ≠ slash ∧ Plain char) :
    AnswersKey evp holder.trut rqst entry ↔ held.val.map toupper = asking.val.map toupper := by
  have unslashed : slash ∉ asking.val := fun inside => (plain slash inside).1 rfl
  have word := word_append (fun char member => (plain char member).2) []
  rw [List.append_nil] at word
  rw [joinGroup_search asks, answersKey_iff (run_unowned run) member key whole, word.1]
  simp only [tokens, List.append_nil, Glob.mem_word, unslashed, not_false_eq_true, true_and]

/-- A peer answers the search that `JoinGroup` makes with the key of the group asked for, and with
no other, exactly for discoverable names. -/
theorem key_discovery_iff (run : Run ulong evp start turns holder)
    (member : entry ∈ holder.trut.collect.entries)
    (key : entry.content = .data (keyName held) data) (whole : guid.length = 16)
    (asks : .search rqst ∈ (joiner.joinGroup asking join accept guid).2) :
    (AnswersKey evp holder.trut rqst entry ↔ asking = held) ↔ Discoverable asking held := by
  rw [joinGroup_search asks, answersKey_iff (run_unowned run) member key whole, Discoverable]
  by_cases same : asking = held
  next =>
    subst same
    simp
  next =>
    simp only [same, iff_false, if_false, not_and_or, not_not]

def clubKey : Entry := { content := .data (keyName club) (Block.zero sessionKeySize).val }

def keeper : Peer :=
  { joinedOnce.searchStop (some (.findKey 0)) with
    waiting := []
    trut := joinedOnce.trut.joinCreate 4294967296 0 (Block.zero _) }

theorem keeper_run : ∃ turns, Run 4294967296 Key.zeroCipher start turns keeper :=
  ⟨[⟨_, joining club, _⟩, ⟨_, .wake 0 (Block.zero _), _⟩], .cons rfl (.cons rfl (.nil _))⟩

theorem key_discovery_club : ∃ turns rqst,
    Run 4294967296 Key.zeroCipher start turns keeper ∧ clubKey ∈ keeper.trut.collect.entries ∧
      clubKey.content = .data (keyName club) (Block.zero sessionKeySize).val ∧
      .search rqst ∈ (start.joinGroup club true none (List.replicate 16 0)).2 ∧
      ((AnswersKey Key.zeroCipher keeper.trut rqst clubKey ↔ club = club) ↔
        Discoverable club club) := by
  obtain ⟨turns, run⟩ := keeper_run
  have member : clubKey ∈ keeper.trut.collect.entries := List.mem_cons_self
  have asks : .search (searchRqst (List.replicate 16 0) (keyName club).val) ∈
      (start.joinGroup club true none (List.replicate 16 0)).2 := List.mem_cons_self
  exact ⟨turns, _, run, member, rfl, asks, key_discovery_iff run member rfl rfl asks⟩

def loudClub : CString := ⟨ascii "CLUB", by decide⟩

set_option maxRecDepth 4000 in
/-- Who asks for the key of "CLUB" gets that of "club". -/
theorem key_of_other : ∃ turns rqst, Run 4294967296 Key.zeroCipher start turns keeper ∧
    clubKey ∈ keeper.trut.collect.entries ∧
    .search rqst ∈ (start.joinGroup loudClub true none (List.replicate 16 0)).2 ∧
    AnswersKey Key.zeroCipher keeper.trut rqst clubKey ∧ loudClub ≠ club := by
  obtain ⟨turns, run⟩ := keeper_run
  have member : clubKey ∈ keeper.trut.collect.entries := List.mem_cons_self
  have asks : .search (searchRqst (List.replicate 16 0) (keyName loudClub).val) ∈
      (start.joinGroup loudClub true none (List.replicate 16 0)).2 := List.mem_cons_self
  have answers := (answersKey_plain run member rfl rfl asks (by decide)).2 (by decide)
  exact ⟨turns, _, run, member, asks, answers, by decide⟩

end Peer
