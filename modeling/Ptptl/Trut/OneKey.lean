import Ptptl.Trut.Peer
import Ptptl.Trut.Put

set_option autoImplicit false

/-! # Peers that join one group -/

open Ptp Trut

/-- Peers, and what is under way between them: search packets and answers, and the keys that
`PutThread` sends, each sealed for a client. -/
structure Net (Id : Type) where
  peers : Id → Peer
  packets : List Bytes := []
  transfers : List (Id × Bytes) := []
  -- the keys that `JoinGroup` made so far
  created : List SessionKey := []

namespace Net

inductive Op (Id : Type) where
  | join (peer : Id) (join : Bool) (accept : Option (Option CString → Int)) (guid : Bytes)
  | wake (peer : Id) (ref : Nat) (key : SessionKey)
  | request (peer : Id) (rqst : Bytes) (answering : Answering)
  | response (peer : Id) (resp : Bytes)
  -- `PutThread`, with the request line and the results of `PutAuth`
  | serve (peer : Id) (hdr resp : Bytes) (client : Option Id)
  | fetched (peer : Id) (ref : Nat) (data : Option (Bytes × Nat))

def packet : Peer.Output → Option Bytes
  | .search rqst => some rqst
  | .answer resp => some resp
  | _ => none

/-- Whether `JoinGroup` goes on to make a key. -/
def creates (peer : Peer) (ref : Nat) : Bool :=
  decide (ref ∈ peer.waiting) &&
    (peer.trut.group ref).any fun group => !decide (group.key.isSome ∨ 0 < group.responses)

variable {Id : Type} [DecidableEq Id]

section

variable (ulong : Nat) (evp : Cipher) (getName : Id → Option CString) (disk : Disk) (name : CString)

/-- The keys made so far when a `JoinGroup` ends. -/
def record (net : Net Id) (peer : Id) (ref : Nat) (key : SessionKey) : List SessionKey :=
  if creates (net.peers peer) ref then key :: net.created else net.created

def act (net : Net Id) (peer : Id) (op : Peer.Op) : Except Fault (Net Id × List Peer.Output) := do
  let (next, outputs) ← (net.peers peer).step ulong evp op
  return ({ net with
    peers := Function.update net.peers peer next
    packets := outputs.filterMap packet ++ net.packets }, outputs)

def serve (net : Net Id) (peer : Id) (hdr resp : Bytes) (client : Option Id) : Net Id :=
  match (net.peers peer).trut.putThread getName disk ulong hdr resp client with
  | some (.ok _ _ (.sealed client data)) =>
    { net with transfers := (client, data) :: net.transfers }
  | _ => net

/-- What a `Get` hands over: an error, or a buffer that starts with data sent to this client. -/
def arrives (net : Net Id) (peer : Id) : Option (Bytes × Nat) → Bool
  | none => true
  | some (buffer, size) => decide (size ≤ buffer.length ∧ (peer, buffer.take size) ∈ net.transfers)

def step (net : Net Id) : Op Id → Except Fault (Net Id × List Peer.Output)
  -- packets and keys arrive after any time, any number of times or never
  | .join peer join accept guid => net.act ulong evp peer (.joinGroup name join accept guid)
  | .wake peer ref key =>
    { net with created := net.record peer ref key }.act ulong evp peer (.wake ref key)
  | .request peer rqst answering =>
    if rqst ∈ net.packets then net.act ulong evp peer (.request rqst answering) else .ok (net, [])
  | .response peer resp =>
    if resp ∈ net.packets then net.act ulong evp peer (.response resp) else .ok (net, [])
  | .serve peer hdr resp client => .ok (net.serve ulong getName disk peer hdr resp client, [])
  | .fetched peer ref data =>
    if net.arrives peer data then net.act ulong evp peer (.fetched ref data) else .ok (net, [])

def start (Id : Type) : Net Id := { peers := fun _ => Peer.start }

abbrev Turn (Id : Type) := Runs.Turn (Net Id) (Op Id) Peer.Output

abbrev Run : Net Id → List (Turn Id) → Net Id → Prop :=
  Runs.Run (step ulong evp getName disk name)

end

def Agree (net : Net Id) (name : CString) : Prop :=
  ∀ first second group other key otherKey,
    (net.peers first).trut.findGroup name.val = some group → group.key = some key →
    (net.peers second).trut.findGroup name.val = some other → other.key = some otherKey →
    key = otherKey

/-- All keys of a peer are among some, and so is what it has to send. -/
structure Only (keys : List SessionKey) (trut : Trut) : Prop where
  groups : ∀ group ∈ trut.groups, ∀ key, group.key = some key → key ∈ keys
  entries : ∀ entry ∈ trut.collect.entries, ∃ name, ∃ key ∈ keys,
    entry.content = .data name key.val

theorem Only.mono {keys more : List SessionKey} {trut : Trut} (only : Only keys trut)
    (fewer : keys ⊆ more) : Only more trut where
  groups group member key has := fewer (only.groups group member key has)
  entries entry member := by
    obtain ⟨name, key, inside, content⟩ := only.entries entry member
    exact ⟨name, key, fewer inside, content⟩

variable {ulong : Nat} {evp : Cipher} {keys : List SessionKey}

theorem Only.update {trut : Trut} (only : Only keys trut) (ref : Nat) (change : Group → Group)
    (kept : ∀ group key, (change group).key = some key → group.key = some key ∨ key ∈ keys) :
    Only keys (trut.update ref change) where
  groups group member key has := by
    obtain ⟨before, inside, rfl⟩ := List.mem_map.1 member
    split at has
    · rcases kept before key has with old | new
      · exact only.groups before inside key old
      · exact new
    · exact only.groups before inside key has
  entries := only.entries

theorem Only.addKey {trut : Trut} (only : Only keys trut) (name : CString) {key : SessionKey}
    (inside : key ∈ keys) : Only keys (trut.addKey ulong name key.val) where
  groups := only.groups
  entries entry member := by
    rcases List.mem_cons.1 member with rfl | member
    · exact ⟨_, key, inside, rfl⟩
    · exact only.entries entry member

theorem Only.joinGroup {trut : Trut} (only : Only keys trut) (name : CString)
    (accept : Option (Option CString → Int)) : Only keys (trut.joinGroup name accept) := by
  simp only [Trut.joinGroup]
  split
  next =>
    refine ⟨fun group member key has => ?_, only.entries⟩
    rcases List.mem_cons.1 member with rfl | member
    · exact absurd has (by simp)
    · exact only.groups group member key has
  next =>
    split
    · exact only.update _ _ fun _ _ has => .inl has
    · exact only

theorem Only.findKey {trut : Trut} (only : Only keys trut) (ref : Nat) (fileName : Bytes) :
    Only keys (trut.findKey ref fileName) := by
  refine only.update ref _ fun group key has => .inl ?_
  split at has
  · exact has
  · exact has

theorem Only.install {trut : Trut} (only : Only keys trut) (ref : Nat) (name : CString)
    {key : SessionKey} (inside : key ∈ keys) :
    Only keys ((trut.update ref fun group => { group with key := some key }).addKey ulong name
      key.val) := by
  refine (only.update ref _ fun group other has => .inr ?_).addKey name inside
  exact Option.some.inj has ▸ inside

theorem wake_only {peer next : Peer} {ref : Nat} {key : SessionKey} {outputs : List Peer.Output}
    (only : Only keys peer.trut) (inside : creates peer ref → key ∈ keys)
    (woken : peer.wake ulong ref key = .ok (next, outputs)) : Only keys next.trut := by
  rcases Peer.wake_cases woken with ⟨rfl, _⟩ | ⟨group, found, pending, result⟩
  · exact only
  · split at result
    next => exact result.1 ▸ only
    next silent =>
      have made : creates peer ref := by
        simp only [creates, pending, found, Option.any_some, silent]
        rfl
      rw [result.1]
      simp only [Trut.joinCreate, found, silent, if_false]
      exact only.install ref group.name (inside made)

theorem fetchKey_only {peer next : Peer} {ref : Nat} {data : Option (Bytes × Nat)}
    {outputs : List Peer.Output} (only : Only keys peer.trut)
    (known : ∀ buffer size, data = some (buffer, size) →
      size ≤ buffer.length ∧ ∃ key ∈ keys, buffer.take size = key.val)
    (fetched : peer.fetchKey ulong ref data = .ok (next, outputs)) : Only keys next.trut := by
  rcases Peer.fetchKey_cases fetched with ⟨rfl, _⟩ | ⟨_, rfl, _⟩ |
    ⟨buffer, size, trut, rfl, _, installed, rfl, _⟩
  · exact only
  · exact only
  · obtain ⟨fits, key, inside, same⟩ := known buffer size rfl
    obtain ⟨group, _, long, _, rfl⟩ := fetchKey_spec installed
    -- what was received is a whole key
    have whole : size = sessionKeySize := by
      have length := congrArg List.length same
      rw [List.length_take, key.property] at length
      omega
    have equal : Block.ofBytes sessionKeySize buffer = key := by
      apply Subtype.ext
      rw [Block.ofBytes_val long, ← same, whole]
    rw [equal, same]
    exact only.install ref group.name inside

omit [DecidableEq Id] in
theorem sendEntry_sealed {disk : Disk} {resp header data : Bytes} {entry sent : Collection.Entry}
    {key : Option SessionKey} {id : Option Id} {client : Id}
    (reply : sendEntry disk resp entry key id = .ok header sent (.sealed client data)) :
    ∃ name, entry.content = .data name data := by
  simp only [sendEntry] at reply
  split at reply
  next => simp at reply
  next size =>
    cases content : entry.content with
    | file path size' =>
      simp only [content] at reply
      split at reply
      next => simp at reply
      next source => split at reply <;> simp at reply
    | data name stored =>
      simp only [content] at reply
      split at reply
      next =>
        simp only [Reply.ok.injEq, Body.sealed.injEq] at reply
        exact ⟨name, by rw [reply.2.2.2]⟩
      next => simp at reply
      next => simp at reply

omit [DecidableEq Id] in
theorem putThread_sealed {getName : Id → Option CString} {disk : Disk} {trut : Trut}
    {hdr resp header data : Bytes} {sent : Collection.Entry} {id : Option Id} {client : Id}
    (reply : trut.putThread getName disk ulong hdr resp id =
      some (.ok header sent (.sealed client data))) :
    ∃ entry ∈ trut.collect.entries, ∃ name, entry.content = .data name data := by
  simp only [putThread] at reply
  split at reply
  next => simp at reply
  next => simp at reply
  next ref _ =>
    cases found : trut.collect.find ref with
    | none => simp [found] at reply
    | some entry =>
      simp only [found, Option.some.injEq] at reply
      exact ⟨entry, List.mem_of_find?_eq_some found, sendEntry_sealed reply⟩
  next name ref _ =>
    cases member : trut.findGroup name with
    | none => simp [member] at reply
    | some group =>
      cases has : group.key with
      | none => simp [member, has] at reply
      | some key =>
        cases found : trut.collect.find ref with
        | none => simp [member, has, found] at reply
        | some entry =>
          refine ⟨entry, List.mem_of_find?_eq_some found, ?_⟩
          simp only [member, has, found, Option.some.injEq] at reply
          split at reply
          · split at reply
            · simp at reply
            · exact sendEntry_sealed reply
          · exact sendEntry_sealed reply

structure Sound (net : Net Id) : Prop where
  peers : ∀ peer, Only net.created (net.peers peer).trut
  transfers : ∀ client data, (client, data) ∈ net.transfers → ∃ key ∈ net.created, data = key.val

theorem Sound.act {net next : Net Id} {peer : Id} {op : Peer.Op} {outputs : List Peer.Output}
    (sound : net.Sound) (acted : net.act ulong evp peer op = .ok (next, outputs))
    (only : ∀ after, (net.peers peer).step ulong evp op = .ok (after, outputs) →
      Only net.created after.trut) : next.Sound := by
  simp only [Net.act, Runs.bind_ok, Runs.pure_ok, Prod.mk.injEq] at acted
  obtain ⟨⟨after, _⟩, stepped, rfl, rfl⟩ := acted
  refine ⟨fun other => ?_, sound.transfers⟩
  by_cases same : other = peer
  · subst same
    simpa using only after stepped
  · simpa [Function.update, same] using sound.peers other

omit [DecidableEq Id] in
theorem Sound.create {net : Net Id} (sound : net.Sound) {more : List SessionKey}
    (fewer : net.created ⊆ more) : Sound { net with created := more } where
  peers peer := (sound.peers peer).mono fewer
  transfers client data member := by
    obtain ⟨key, inside, same⟩ := sound.transfers client data member
    exact ⟨key, fewer inside, same⟩

variable {getName : Id → Option CString} {disk : Disk} {name : CString}

theorem step_sound {net next : Net Id} {op : Op Id} {outputs : List Peer.Output}
    (sound : net.Sound)
    (stepped : net.step ulong evp getName disk name op = .ok (next, outputs)) : next.Sound := by
  cases op with
  | join peer join accept guid =>
    refine sound.act stepped fun after joined => ?_
    simp only [Peer.step, Except.ok.injEq] at joined
    have same : ((net.peers peer).joinGroup name join accept guid).1 = after :=
      congrArg Prod.fst joined
    rw [← same, Peer.joinGroup_trut]
    exact (sound.peers peer).joinGroup name accept
  | wake peer ref key =>
    have created : Sound { net with created := net.record peer ref key } := by
      apply sound.create
      simp only [record]
      split
      · exact List.subset_cons_self _ _
      · exact List.Subset.refl _
    refine created.act stepped fun after woken => ?_
    refine wake_only (created.peers peer) (fun made => ?_) woken
    simp [record, made]
  | request peer rqst answering =>
    simp only [step] at stepped
    split at stepped
    · refine sound.act stepped fun after answered => ?_
      simp only [Peer.step, Runs.bind_ok, Runs.pure_ok, Prod.mk.injEq] at answered
      obtain ⟨_, _, rfl, _⟩ := answered
      exact sound.peers peer
    · simp only [Except.ok.injEq, Prod.mk.injEq] at stepped
      exact stepped.1 ▸ sound
  | response peer resp =>
    simp only [step] at stepped
    split at stepped
    · refine sound.act stepped fun after handled => ?_
      exact (Peer.response_invariant (fun peer => Only net.created peer.trut)
        (fun ref fileName only => only.findKey ref fileName) handled (sound.peers peer)).1
    · simp only [Except.ok.injEq, Prod.mk.injEq] at stepped
      exact stepped.1 ▸ sound
  | serve peer hdr resp client =>
    simp only [step, Except.ok.injEq, Prod.mk.injEq] at stepped
    rw [← stepped.1]
    simp only [serve]
    split
    next header sent client data reply =>
      refine ⟨sound.peers, fun other bytes member => ?_⟩
      rcases List.mem_cons.1 member with same | member
      · -- what a peer sends is one of its entries
        obtain ⟨entry, inside, _, content⟩ := putThread_sealed reply
        obtain ⟨_, key, known, stored⟩ := (sound.peers peer).entries entry inside
        rw [content, Collection.Content.data.injEq] at stored
        exact ⟨key, known, (congrArg Prod.snd same).trans stored.2⟩
      · exact sound.transfers other bytes member
    next => exact sound
  | fetched peer ref data =>
    simp only [step] at stepped
    split at stepped
    next arrived =>
      refine sound.act stepped fun after fetched => ?_
      refine fetchKey_only (sound.peers peer) (fun buffer size received => ?_) fetched
      subst received
      simp only [arrives, decide_eq_true_eq] at arrived
      exact ⟨arrived.1, sound.transfers peer _ arrived.2⟩
    next =>
      simp only [Except.ok.injEq, Prod.mk.injEq] at stepped
      exact stepped.1 ▸ sound

theorem run_sound {net last : Net Id} {turns : List (Turn Id)}
    (run : Run ulong evp getName disk name net turns last) (sound : net.Sound) : last.Sound :=
  run.stable Sound step_sound sound

omit [DecidableEq Id] in
theorem start_sound : (start Id).Sound := by
  refine ⟨fun peer => ⟨?_, ?_⟩, ?_⟩
  all_goals simp [start, Peer.start]

theorem one_key {last : Net Id} {turns : List (Turn Id)}
    (run : Run ulong evp getName disk name (start Id) turns last) :
    (∀ peer group key, (last.peers peer).trut.findGroup name.val = some group →
      group.key = some key → key ∈ last.created) ∧
    (last.created.length ≤ 1 → last.Agree name) := by
  have sound := run_sound run start_sound
  have known (peer : Id) (group : Group) (key : SessionKey)
      (found : (last.peers peer).trut.findGroup name.val = some group)
      (has : group.key = some key) : key ∈ last.created :=
    (sound.peers peer).groups group (List.mem_of_find?_eq_some found) key has
  refine ⟨known, fun once first second group other key otherKey found has also hasOther => ?_⟩
  have inside := known first group key found has
  have insideOther := known second other otherKey also hasOther
  cases created : last.created with
  | nil => simp [created] at inside
  | cons made rest =>
    have alone : rest = [] := by
      rw [created, List.length_cons] at once
      exact List.length_eq_zero_iff.1 (by omega)
    rw [created, alone, List.mem_singleton] at inside insideOther
    rw [inside, insideOther]

def emptyDisk : Disk := ⟨fun _ => none, fun _ => none⟩

def nameless : Bool → Option CString := fun _ => none

def joins (peer : Bool) : Op Bool := .join peer true none (List.replicate 16 0)

def made (byte : Byte) : SessionKey := ⟨List.replicate 16 byte, rfl⟩

def home : Answering := ⟨1, 2, List.replicate 16 0, Block.zero _⟩

def keyEntry : Collection.Entry := { content := .data (keyName Peer.club) (made 1).val }

def agreeing : List (Op Bool) :=
  [joins false, .wake false 0 (made 1), joins true,
    .request false (Gnutella.searchRqst (List.replicate 16 0) (keyName Peer.club).val) home,
    .response true (Gnutella.packet (List.replicate 16 0) 0x81
      (answerPayload home [searchEntry true keyEntry])),
    .serve false (ascii "GET /gets/club/0000 HTTP/1.0") [] (some true),
    .fetched true 0 (some ((made 1).val, sessionKeySize))]

def clubStep : Net Bool → Op Bool → Except Fault (Net Bool × List Peer.Output) :=
  step 4294967296 Key.zeroCipher nameless emptyDisk Peer.club

theorem one_key_created : ∃ turns last,
    Runs.execute clubStep (start Bool) agreeing = some (turns, last) ∧
      (∀ peer, ((last.peers peer).trut.findGroup Peer.club.val).bind Group.key = some (made 1)) ∧
      last.created = [made 1] ∧ last.Agree Peer.club := by
  obtain ⟨turns, last, executed, same⟩ := @Runs.execute_any _ _ _ _ clubStep (start Bool) agreeing
    (fun _ last => decide ((∀ peer, ((last.peers peer).trut.findGroup Peer.club.val).bind Group.key =
      some (made 1)) ∧ last.created = [made 1])) (by decide +kernel)
  obtain ⟨keyed, created⟩ := of_decide_eq_true same
  have run : Run 4294967296 Key.zeroCipher nameless emptyDisk Peer.club (start Bool) turns last :=
    .of_execute executed
  exact ⟨turns, last, executed, keyed, created, (one_key run).2 (by rw [created]; decide)⟩

/-- Both joins time out before a packet arrives. -/
theorem two_keys : ¬ ∀ (turns : List (Turn Bool)) (last : Net Bool),
    Run 4294967296 Key.zeroCipher nameless emptyDisk Peer.club (start Bool) turns last →
      last.Agree Peer.club := by
  intro always
  have run : Run 4294967296 Key.zeroCipher nameless emptyDisk Peer.club (start Bool)
    [⟨_, joins false, _⟩, ⟨_, joins true, _⟩, ⟨_, .wake false 0 (made 1), _⟩,
      ⟨_, .wake true 0 (made 2), _⟩] _ :=
    .cons rfl (.cons rfl (.cons rfl (.cons rfl (.nil _))))
  have same := always _ _ run false true _ _ (made 1) (made 2) rfl rfl rfl rfl
  exact absurd same (by decide)

end Net
