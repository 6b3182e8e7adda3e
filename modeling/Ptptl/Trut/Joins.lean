import Ptptl.Trut.Peer

set_option autoImplicit false

/-! # Whether a group has been joined when the join callback says so -/

namespace Peer

open Ptp Trut Gnutella

variable {ulong : Nat} {evp : Cipher}

/-- A success is reported only of a group with a key, and who joins a group without one searches
for it. -/
def Truthful (turn : Turn) : Prop :=
  (∀ ref status key, .joined ref status key ∈ turn.outputs → status ≠ .error → key.isSome) ∧
    ∀ name join accept guid, turn.op = .joinGroup name join accept guid →
      (∀ group, turn.state.trut.findGroup name.val = some group → group.key = none) →
        .search (searchRqst guid (keyName name).val) ∈ turn.outputs

def JoinsFresh (turn : Turn) : Prop :=
  ∀ name join accept guid, turn.op = .joinGroup name join accept guid →
    ∀ group, turn.state.trut.findGroup name.val = some group → group.key.isSome

theorem mem_report {peer : Peer} {ref other : Nat} {status result : JoinStatus}
    {key : Option SessionKey} (member : .joined other result key ∈ peer.report ref status) :
    other = ref ∧ result = status ∧ key = (peer.trut.group ref).bind Trut.Group.key := by
  simp only [report] at member
  split at member
  next => simpa using member
  next => simp at member

theorem wake_truthful {peer next : Peer} {ref : Nat} {new : SessionKey} {outputs : List Output}
    (woken : peer.wake ulong ref new = .ok (next, outputs)) :
    ∀ other status key, .joined other status key ∈ outputs → key.isSome := by
  intro other status key member
  rcases wake_cases woken with ⟨_, rfl⟩ | ⟨group, found, _, result⟩
  · simp at member
  · split at result
    next => simp [result.2] at member
    next keyless =>
      obtain ⟨rfl, rfl⟩ := result
      obtain ⟨_, _, rfl⟩ := mem_report member
      rw [Trut.joinCreate_group found keyless]
      rfl

theorem fetchKey_truthful {peer next : Peer} {ref : Nat} {data : Option (Bytes × Nat)}
    {outputs : List Output} (fetched : peer.fetchKey ulong ref data = .ok (next, outputs)) :
    ∀ other status key, .joined other status key ∈ outputs → status ≠ .error → key.isSome := by
  intro other status key member success
  rcases fetchKey_cases fetched with ⟨_, rfl⟩ | ⟨_, _, rfl⟩ |
    ⟨bytes, size, trut, _, _, installed, rfl, rfl⟩
  · simp at member
  · exact absurd (mem_report member).2.1 success
  · obtain ⟨_, _, rfl⟩ := mem_report member
    rw [Trut.fetchKey_group installed]
    rfl

theorem joinGroup_truthful (peer : Peer) (name : CString) (join : Bool)
    (accept : Option (Option CString → Int)) (guid : Bytes) :
    Truthful ⟨peer, .joinGroup name join accept guid, (peer.joinGroup name join accept guid).2⟩ ↔
      JoinsFresh ⟨peer, .joinGroup name join accept guid,
        (peer.joinGroup name join accept guid).2⟩ := by
  -- a search is sent in the first two cases, and only then
  cases present : peer.trut.findGroup name.val with
  | none =>
    simp only [Truthful, JoinsFresh, joinGroup, present, searchKey]
    refine iff_of_true ⟨by simp, ?_⟩ ?_
    · rintro _ _ _ _ ⟨rfl, rfl, rfl, rfl⟩ _
      simp
    · rintro _ _ _ _ ⟨rfl, rfl, rfl, rfl⟩ group found
      simp [present] at found
  | some group =>
    by_cases keyed : group.key.isSome
    · simp only [Truthful, JoinsFresh, joinGroup, present, searchKey, keyed, if_true]
      refine iff_of_true ⟨by simp, ?_⟩ ?_
      · rintro _ _ _ _ ⟨rfl, rfl, rfl, rfl⟩ _
        simp
      · rintro _ _ _ _ ⟨rfl, rfl, rfl, rfl⟩ other found
        rw [present, Option.some.injEq] at found
        exact found ▸ keyed
    · have keyless : group.key = none := by simpa using keyed
      simp only [Truthful, JoinsFresh, joinGroup, present, keyed, if_false, Bool.false_eq_true]
      refine iff_of_false ?_ ?_
      · rintro ⟨_, searches⟩
        have sent := searches name join accept guid rfl fun other found => by
          rw [present, Option.some.injEq] at found
          exact found ▸ keyless
        simp only [report] at sent
        split at sent <;> simp at sent
      · intro fresh
        exact absurd (fresh name join accept guid rfl group present) keyed

theorem step_truthful {peer next : Peer} {op : Op} {outputs : List Output}
    (stepped : peer.step ulong evp op = .ok (next, outputs)) :
    Truthful ⟨peer, op, outputs⟩ ↔ JoinsFresh ⟨peer, op, outputs⟩ := by
  -- only `JoinGroup` can go wrong: what the other operations report is true
  have other (reports : ∀ ref status key, .joined ref status key ∈ outputs →
      status ≠ .error → key.isSome) (different : ∀ name join accept guid,
      op ≠ .joinGroup name join accept guid) :
      Truthful ⟨peer, op, outputs⟩ ↔ JoinsFresh ⟨peer, op, outputs⟩ :=
    iff_of_true
      ⟨reports, fun _ _ _ _ same => absurd same (different _ _ _ _)⟩
      fun _ _ _ _ same => absurd same (different _ _ _ _)
  cases step_cases stepped with
  | joinGroup name join accept guid => exact joinGroup_truthful peer name join accept guid
  | wake woken => exact other (fun _ _ _ member _ => wake_truthful woken _ _ _ member) (by simp)
  | leaveGroup | search | searchStop | addShared | updateShared | removeShared =>
    exact other (by simp) (by simp)
  | response handled =>
    have silent := (response_invariant (fun _ => True) (fun _ _ _ => trivial) handled trivial).2
    exact other (fun _ _ _ member _ => absurd member (silent _ _ _)) (by simp)
  | request rqst answering resp => exact other (by cases resp <;> simp) (by simp)
  | fetched fetched => exact other (fetchKey_truthful fetched) (by simp)

/-- From the start, or any other state. -/
theorem join_truthful {first last : Peer} {turns : List Turn} (run : Run ulong evp first turns last) :
    (∀ turn ∈ turns, Truthful turn) ↔ ∀ turn ∈ turns, JoinsFresh turn := by
  refine forall₂_congr fun turn member => ?_
  obtain ⟨next, stepped⟩ := run.stepped turn member
  exact step_truthful stepped

def firstJoin : Turn :=
  ⟨start, joining club, [.search (searchRqst (List.replicate 16 0) (keyName club).val)]⟩

def secondJoin : Turn := ⟨joinedOnce, joining club, [.joined 0 .ok none]⟩

def joinsFresh (turn : Turn) : Bool :=
  match turn.op with
  | .joinGroup name _ _ _ =>
    (turn.state.trut.findGroup name.val).all fun group => group.key.isSome
  | _ => true

theorem joinsFresh_iff {turn : Turn} : joinsFresh turn = true ↔ JoinsFresh turn := by
  obtain ⟨state, op, outputs⟩ := turn
  cases op with
  | joinGroup name join accept guid =>
    simp only [joinsFresh, Option.all_eq_true, JoinsFresh]
    constructor
    · rintro keyed _ _ _ _ ⟨⟩
      exact keyed
    · exact fun fresh => fresh name join accept guid rfl
  | _ => exact iff_of_true rfl (by rintro _ _ _ _ ⟨⟩)

instance (turn : Turn) : Decidable (JoinsFresh turn) := decidable_of_iff _ joinsFresh_iff

def band : CString := ⟨ascii "band", by decide⟩

def bandAnswer : Bytes :=
  packet (List.replicate 16 1) 0x81
    (answerPayload ⟨1, 2, List.replicate 16 0, Block.zero _⟩ [⟨0, sessionKeySize, ascii "key"⟩])

/-- One group is made and joined once more; the key of another one is found, and arrives after a
`Get` that failed. -/
def joinings : List Op :=
  [joining club, .wake 0 (Block.zero _), joining club,
    .joinGroup band true none (List.replicate 16 1), .response bandAnswer, .response bandAnswer,
    .wake 1 (Block.zero _), .fetched 1 none,
    .fetched 1 (some ((Block.zero sessionKeySize).val, sessionKeySize))]

def statuses (turns : List Turn) : List (Nat × JoinStatus) :=
  turns.flatMap fun turn => turn.outputs.filterMap fun output =>
    match output with
    | .joined ref status _ => some (ref, status)
    | _ => none

theorem join_truthful_first : ∃ turns last,
    Runs.execute (step 4294967296 Key.zeroCipher) start joinings = some (turns, last) ∧
      statuses turns = [(0, .created), (1, .error), (1, .ok)] ∧ ∀ turn ∈ turns, Truthful turn := by
  obtain ⟨turns, last, executed, same⟩ := @Runs.execute_any _ _ _ _
    (step 4294967296 Key.zeroCipher) start joinings (fun turns _ => decide
      ((∀ turn ∈ turns, JoinsFresh turn) ∧ statuses turns = [(0, .created), (1, .error), (1, .ok)]))
    (by decide +kernel)
  obtain ⟨fresh, reported⟩ := of_decide_eq_true same
  exact ⟨turns, last, executed, reported, (join_truthful (.of_execute executed)).2 fresh⟩

theorem join_twice : ¬ ∀ (turns : List Turn) (last : Peer),
    Run 4294967296 Key.zeroCipher start turns last → ∀ turn ∈ turns, Truthful turn := by
  intro always
  have run : Run 4294967296 Key.zeroCipher start [firstJoin, secondJoin] joinedOnce :=
    .cons rfl (.cons rfl (.nil joinedOnce))
  have truthful := (always _ _ run secondJoin (by simp)).1 0 .ok none (by decide) (by decide)
  exact absurd truthful (by decide)

end Peer
