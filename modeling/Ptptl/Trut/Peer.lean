import Mathlib.Logic.Function.Basic
import Ptptl.Library.Runs
import Ptptl.Trut.Search

set_option autoImplicit false

/-! # A peer: its groups, searches, shares and downloads of keys -/

open Ptp Trut Gnutella

inductive Trut.Callback where
  | findKey (group : Nat)
  | user (context : Nat)
deriving DecidableEq

structure Trut.SearchContext where
  guid : Bytes
  callback : Trut.Callback
  group : Option Nat

structure Trut.Shared where
  ref : Nat
  path : CString
  ext : Option CString
  group : Option Nat

inductive Trut.JoinStatus where
  | ok
  | created
  | error
deriving DecidableEq

structure Peer where
  trut : Trut := {}
  -- which groups have a join callback
  joins : Nat → Bool := fun _ => false
  searches : List SearchContext := []
  shared : List Shared := []
  allocated : Nat := 0
  -- the groups for which a `JoinGroup` sleeps, and those for which a `Get` runs
  waiting : List Nat := []
  fetching : List Nat := []

namespace Peer

/-- What a peer does besides changing its state. -/
inductive Output where
  -- a search packet, to every host
  | search (rqst : Bytes)
  -- an answer, to the host that asked
  | answer (resp : Bytes)
  | found (context : Nat) (file : File)
  -- the join callback, and the group's key when it is called
  | joined (ref : Nat) (status : JoinStatus) (key : Option SessionKey)
deriving DecidableEq

/-- A call of the application, a thread that goes on, or a packet. -/
inductive Op where
  | joinGroup (name : CString) (join : Bool) (accept : Option (Option CString → Int))
      (guid : Bytes)
  -- `JoinGroup` after its sleep; the key is what `new PTP::Key` makes
  | wake (ref : Nat) (key : SessionKey)
  | leaveGroup (ref : Nat)
  | search (str : Bytes) (context : Nat) (group : Option Nat) (guid : Bytes) (iv : Iv)
  | searchStop (context : Option Callback)
  | addShared (path : CString) (ext : Option CString) (group : Option Nat)
      (files : Collection.Dir → List (CString × Nat))
  | updateShared (shared : Nat) (ext : Option CString) (group : Option Nat)
      (files : Collection.Dir → List (CString × Nat))
  | removeShared (shared : Nat) (files : Collection.Dir → List (CString × Nat))
  | response (resp : Bytes)
  | request (rqst : Bytes) (answering : Answering)
  -- a `Get` of a key ends, in error or with a buffer and the size received
  | fetched (ref : Nat) (data : Option (Bytes × Nat))

variable (ulong : Nat) (evp : Cipher)

def start : Peer := {}

def report (peer : Peer) (ref : Nat) (status : JoinStatus) : List Output :=
  if peer.joins ref then [.joined ref status ((peer.trut.group ref).bind Trut.Group.key)] else []

/-- `JoinGroup` of a new group, or of one with a key, up to its sleep. -/
def searchKey (peer : Peer) (ref : Nat) (name : CString) (join : Bool)
    (accept : Option (Option CString → Int)) (guid : Bytes) : Peer × List Output :=
  ({ peer with
      trut := peer.trut.joinGroup name accept
      joins := Function.update peer.joins ref join
      searches := { guid := guid, callback := .findKey ref, group := none } :: peer.searches
      waiting := ref :: peer.waiting },
    [.search (searchRqst guid (keyName name).val)])

def joinGroup (peer : Peer) (name : CString) (join : Bool)
    (accept : Option (Option CString → Int)) (guid : Bytes) : Peer × List Output :=
  match peer.trut.findGroup name.val with
  | none => peer.searchKey peer.trut.allocated name join accept guid
  | some group =>
    if group.key.isSome then peer.searchKey group.ref name join accept guid
    else (peer, peer.report group.ref .ok)

def searchStop (peer : Peer) (context : Option Callback) : Peer :=
  { peer with
    searches := peer.searches.filter fun search =>
      context.any fun context => search.callback ≠ context }

/-- The end of a `JoinGroup` that sleeps; other threads are not waiting for `ref`. -/
def wake (peer : Peer) (ref : Nat) (key : SessionKey) : Except Fault (Peer × List Output) :=
  if ref ∉ peer.waiting then .ok (peer, [])
  else do
    let group ← deref peer.trut ref
    let peer := { peer with waiting := peer.waiting.erase ref }
    if group.key.isSome ∨ 0 < group.responses then return (peer, [])
    let peer := peer.searchStop (some (.findKey ref))
    let peer := { peer with trut := peer.trut.joinCreate ulong ref key }
    return (peer, peer.report ref .created)

/-- `m_groups.Remove(group)`. -/
def leaveGroup (peer : Peer) (ref : Nat) : Except Fault (Peer × List Output) := do
  let _ ← deref peer.trut ref
  let trut := peer.trut
  return ({ peer with
    trut := { trut with groups := trut.groups.filter fun group => group.ref ≠ ref } }, [])

def groupOf (peer : Peer) (group : Option Nat) : Except Fault (Option Group) :=
  match group with
  | none => .ok none
  | some ref => do return some (← deref peer.trut ref)

def search (peer : Peer) (str : Bytes) (context : Nat) (group : Option Nat) (guid : Bytes)
    (iv : Iv) : Except Fault (Peer × List Output) := do
  let found ← peer.groupOf group
  let str ← searchString evp str found iv
  let entry := { guid := guid, callback := .user context, group := group }
  return ({ peer with searches := entry :: peer.searches }, [.search (searchRqst guid str)])

def rescan (peer : Peer) (files : Collection.Dir → List (CString × Nat)) : Peer :=
  let trut := peer.trut
  { peer with trut := { trut with collect := trut.collect.rescan ulong files } }

def addShared (peer : Peer) (path : CString) (ext : Option CString) (group : Option Nat)
    (files : Collection.Dir → List (CString × Nat)) : Peer :=
  { peer with
    shared := ⟨peer.allocated, path, ext, group⟩ :: peer.shared
    allocated := peer.allocated + 1
    trut := peer.trut.addShared ulong path ext group files }

def updateShared (peer : Peer) (ref : Nat) (ext : Option CString) (group : Option Nat)
    (files : Collection.Dir → List (CString × Nat)) : Peer :=
  match peer.shared.find? fun shared => shared.ref = ref with
  | none => peer
  | some old =>
    let trut := { peer.trut with collect := peer.trut.collect.removeDir old.path }
    { peer with
      shared := peer.shared.map fun shared =>
        if shared.ref = ref then { shared with ext := ext, group := group } else shared
      trut := trut.addShared ulong old.path ext group files }

def removeShared (peer : Peer) (ref : Nat) (files : Collection.Dir → List (CString × Nat)) : Peer :=
  match peer.shared.find? fun shared => shared.ref = ref with
  | none => peer
  | some old =>
    let trut := { peer.trut with collect := peer.trut.collect.removeDir old.path }
    { peer with
      shared := peer.shared.filter fun shared => shared.ref ≠ ref
      trut := trut }.rescan ulong files

def findKey (peer : Peer) (ref : Nat) (file : File) : Except Fault Peer := do
  let group ← deref peer.trut ref
  if group.key.isNone ∧ file.name = ascii "key" then
    return { peer with
      trut := peer.trut.findKey ref file.name
      fetching := ref :: peer.fetching }
  return peer

/-- The loop of `HandleSearchResponse`, which calls the search's callback for each file. -/
def callback (callback : Callback) : Peer → List File → Except Fault (Peer × List Output)
  | peer, [] => .ok (peer, [])
  | peer, file :: files =>
    match callback with
    | .findKey ref => do
      let peer ← peer.findKey ref file
      Peer.callback callback peer files
    | .user context => do
      let (peer, outputs) ← Peer.callback callback peer files
      return (peer, .found context file :: outputs)

def handleSearchResponse (peer : Peer) (resp : Bytes) : Except Fault (Peer × List Output) :=
  match peer.searches.find? fun search => search.guid = guid resp with
  | none => .ok (peer, [])
  | some search => do
    match ← decryptAnswer evp peer.trut search.group resp with
    | none => return (peer, [])
    | some payload =>
      let files ← readFiles payload search.group
      Peer.callback search.callback peer files

def fetchKey (peer : Peer) (ref : Nat) (data : Option (Bytes × Nat)) :
    Except Fault (Peer × List Output) :=
  if ref ∉ peer.fetching then .ok (peer, [])
  else do
    let _ ← deref peer.trut ref
    let peer := { peer with fetching := peer.fetching.erase ref }
    match data with
    | none => return (peer, peer.report ref .error)
    | some (data, size) =>
      let trut ← orUndefined (peer.trut.fetchKey ulong ref data size)
      let peer := { peer with trut := trut }
      return (peer, peer.report ref .ok)

def step (peer : Peer) : Op → Except Fault (Peer × List Output)
  | .joinGroup name join accept guid => .ok (peer.joinGroup name join accept guid)
  | .wake ref key => peer.wake ulong ref key
  | .leaveGroup ref => peer.leaveGroup ref
  | .search str context group guid iv => peer.search evp str context group guid iv
  | .searchStop context => .ok (peer.searchStop context, [])
  | .addShared path ext group files => .ok (peer.addShared ulong path ext group files, [])
  | .updateShared shared ext group files =>
    .ok (peer.updateShared ulong shared ext group files, [])
  | .removeShared shared files => .ok (peer.removeShared ulong shared files, [])
  | .response resp => peer.handleSearchResponse evp resp
  | .request rqst answering => do
    let resp ← handleSearchRequest evp peer.trut answering rqst
    return (peer, (resp.map Output.answer).toList)
  | .fetched ref data => peer.fetchKey ulong ref data

section

variable {ulong : Nat} {evp : Cipher} {peer next : Peer} {ref : Nat} {outputs : List Output}

theorem wake_cases {key : SessionKey} (woken : peer.wake ulong ref key = .ok (next, outputs)) :
    (next = peer ∧ outputs = []) ∨ ∃ group, peer.trut.group ref = some group ∧ ref ∈ peer.waiting ∧
      if group.key.isSome ∨ 0 < group.responses then
        next = { peer with waiting := peer.waiting.erase ref } ∧ outputs = []
      else
        next = { ({ peer with waiting := peer.waiting.erase ref } : Peer).searchStop
          (some (.findKey ref)) with trut := peer.trut.joinCreate ulong ref key } ∧
        outputs = next.report ref .created := by
  simp only [wake] at woken
  split at woken
  next =>
    simp only [Except.ok.injEq, Prod.mk.injEq] at woken
    exact .inl ⟨woken.1.symm, woken.2.symm⟩
  next pending =>
    simp only [Runs.bind_ok] at woken
    obtain ⟨group, found, woken⟩ := woken
    refine .inr ⟨group, deref_ok.1 found, Decidable.not_not.1 pending, ?_⟩
    split at woken
    next answered =>
      simp only [Runs.pure_ok, Prod.mk.injEq] at woken
      rw [if_pos answered]
      exact ⟨woken.1.symm, woken.2.symm⟩
    next silent =>
      simp only [Runs.pure_ok, Prod.mk.injEq] at woken
      rw [if_neg silent, ← woken.1]
      exact ⟨rfl, woken.2.symm⟩

theorem fetchKey_cases {data : Option (Bytes × Nat)}
    (fetched : peer.fetchKey ulong ref data = .ok (next, outputs)) :
    (next = peer ∧ outputs = []) ∨
    (data = none ∧ next = { peer with fetching := peer.fetching.erase ref } ∧
      outputs = next.report ref .error) ∨
    ∃ bytes size trut, data = some (bytes, size) ∧ ref ∈ peer.fetching ∧
      peer.trut.fetchKey ulong ref bytes size = some trut ∧
      next = { peer with fetching := peer.fetching.erase ref, trut := trut } ∧
      outputs = next.report ref .ok := by
  simp only [fetchKey] at fetched
  split at fetched
  next =>
    simp only [Except.ok.injEq, Prod.mk.injEq] at fetched
    exact .inl ⟨fetched.1.symm, fetched.2.symm⟩
  next pending =>
    simp only [Runs.bind_ok] at fetched
    obtain ⟨group, _, fetched⟩ := fetched
    cases data with
    | none =>
      simp only [Runs.pure_ok, Prod.mk.injEq] at fetched
      obtain ⟨rfl, rfl⟩ := fetched
      exact .inr (.inl ⟨rfl, rfl, rfl⟩)
    | some data =>
      simp only [Runs.bind_ok, Runs.pure_ok, Prod.mk.injEq, orUndefined_ok] at fetched
      obtain ⟨trut, installed, rfl, rfl⟩ := fetched
      exact .inr (.inr ⟨_, _, trut, rfl, Decidable.not_not.1 pending, installed, rfl, rfl⟩)

theorem findKey_cases {file : File} (found : peer.findKey ref file = .ok next) :
    next = peer ∨ next = { peer with
      trut := peer.trut.findKey ref file.name
      fetching := ref :: peer.fetching } := by
  simp only [findKey, Runs.bind_ok] at found
  obtain ⟨group, _, found⟩ := found
  split at found
  next =>
    simp only [Runs.pure_ok] at found
    exact .inr found.symm
  next =>
    simp only [Runs.pure_ok] at found
    exact .inl found.symm

theorem callback_invariant (property : Peer → Prop)
    (kept : ∀ {peer : Peer} (ref : Nat) (name : Bytes), property peer → property { peer with
      trut := peer.trut.findKey ref name
      fetching := ref :: peer.fetching })
    {callback : Callback} (files : List File) : ∀ {peer next : Peer} {outputs : List Output},
    Peer.callback callback peer files = .ok (next, outputs) → property peer →
    property next ∧ ∀ ref status key, .joined ref status key ∉ outputs := by
  induction files with
  | nil =>
    intro peer next outputs handled holds
    simp only [Peer.callback, Except.ok.injEq, Prod.mk.injEq] at handled
    obtain ⟨rfl, rfl⟩ := handled
    exact ⟨holds, by simp⟩
  | cons file files ih =>
    intro peer next outputs handled holds
    cases callback with
    | findKey ref =>
      simp only [Peer.callback, Runs.bind_ok] at handled
      obtain ⟨middle, found, handled⟩ := handled
      rcases findKey_cases found with rfl | rfl
      · exact ih handled holds
      · exact ih handled (kept _ _ holds)
    | user context =>
      simp only [Peer.callback, Runs.bind_ok, Runs.pure_ok, Prod.mk.injEq] at handled
      obtain ⟨later, handled, rfl, rfl⟩ := handled
      obtain ⟨result, silent⟩ := ih handled holds
      exact ⟨result, by simpa using silent⟩

theorem response_invariant (property : Peer → Prop)
    (kept : ∀ {peer : Peer} (ref : Nat) (name : Bytes), property peer → property { peer with
      trut := peer.trut.findKey ref name
      fetching := ref :: peer.fetching })
    {resp : Bytes} (handled : peer.handleSearchResponse evp resp = .ok (next, outputs))
    (holds : property peer) :
    property next ∧ ∀ ref status key, .joined ref status key ∉ outputs := by
  simp only [handleSearchResponse] at handled
  split at handled
  next =>
    simp only [Except.ok.injEq, Prod.mk.injEq] at handled
    obtain ⟨rfl, rfl⟩ := handled
    exact ⟨holds, by simp⟩
  next search found =>
    simp only [Runs.bind_ok] at handled
    obtain ⟨payload, _, handled⟩ := handled
    cases payload with
    | none =>
      simp only [Runs.pure_ok, Prod.mk.injEq] at handled
      obtain ⟨rfl, rfl⟩ := handled
      exact ⟨holds, by simp⟩
    | some payload =>
      simp only [Runs.bind_ok] at handled
      obtain ⟨files, _, handled⟩ := handled
      exact callback_invariant property kept files handled holds

theorem joinGroup_trut (peer : Peer) (name : CString) (join : Bool)
    (accept : Option (Option CString → Int)) (guid : Bytes) :
    (peer.joinGroup name join accept guid).1.trut = peer.trut.joinGroup name accept := by
  cases found : peer.trut.findGroup name.val with
  | none => simp only [joinGroup, found, searchKey]
  | some group =>
    by_cases keyed : group.key.isSome
    · simp only [joinGroup, found, keyed, if_true, searchKey]
    · simp only [joinGroup, found, Trut.joinGroup, keyed, if_false, Bool.false_eq_true]

/-- What a step can do: the peer behind it, and what it puts out. -/
inductive Stepped (ulong : Nat) (evp : Cipher) (peer : Peer) : Op → Peer → List Output → Prop where
  | joinGroup (name : CString) (join : Bool) (accept : Option (Option CString → Int))
      (guid : Bytes) :
      Stepped ulong evp peer (.joinGroup name join accept guid)
        (peer.joinGroup name join accept guid).1 (peer.joinGroup name join accept guid).2
  | wake {ref : Nat} {key : SessionKey} {next : Peer} {outputs : List Output}
      (woken : peer.wake ulong ref key = .ok (next, outputs)) :
      Stepped ulong evp peer (.wake ref key) next outputs
  | leaveGroup {ref : Nat} {next : Peer}
      (left : peer.leaveGroup ref = .ok (next, []))
      (same : next = { peer with trut := { peer.trut with
        groups := peer.trut.groups.filter fun group => group.ref ≠ ref } }) :
      Stepped ulong evp peer (.leaveGroup ref) next []
  | search (str : Bytes) (context : Nat) (group : Option Nat) (guid : Bytes) (iv : Iv)
      (text : Bytes) :
      Stepped ulong evp peer (.search str context group guid iv)
        { peer with searches := ⟨guid, .user context, group⟩ :: peer.searches }
        [.search (searchRqst guid text)]
  | searchStop (context : Option Callback) :
      Stepped ulong evp peer (.searchStop context) (peer.searchStop context) []
  | addShared (path : CString) (ext : Option CString) (group : Option Nat)
      (files : Collection.Dir → List (CString × Nat)) :
      Stepped ulong evp peer (.addShared path ext group files)
        (peer.addShared ulong path ext group files) []
  | updateShared (shared : Nat) (ext : Option CString) (group : Option Nat)
      (files : Collection.Dir → List (CString × Nat)) :
      Stepped ulong evp peer (.updateShared shared ext group files)
        (peer.updateShared ulong shared ext group files) []
  | removeShared (shared : Nat) (files : Collection.Dir → List (CString × Nat)) :
      Stepped ulong evp peer (.removeShared shared files) (peer.removeShared ulong shared files) []
  | response {resp : Bytes} {next : Peer} {outputs : List Output}
      (handled : peer.handleSearchResponse evp resp = .ok (next, outputs)) :
      Stepped ulong evp peer (.response resp) next outputs
  | request (rqst : Bytes) (answering : Answering) (resp : Option Bytes) :
      Stepped ulong evp peer (.request rqst answering) peer (resp.map Output.answer).toList
  | fetched {ref : Nat} {data : Option (Bytes × Nat)} {next : Peer} {outputs : List Output}
      (fetched : peer.fetchKey ulong ref data = .ok (next, outputs)) :
      Stepped ulong evp peer (.fetched ref data) next outputs

theorem step_cases {op : Op} (stepped : peer.step ulong evp op = .ok (next, outputs)) :
    Stepped ulong evp peer op next outputs := by
  cases op with
  | joinGroup name join accept guid =>
    simp only [step, Except.ok.injEq] at stepped
    have same : Stepped ulong evp peer _ _ _ := .joinGroup name join accept guid
    rwa [stepped] at same
  | wake ref key => exact .wake stepped
  | leaveGroup ref =>
    have left := stepped
    simp only [step, Peer.leaveGroup, Runs.bind_ok, Runs.pure_ok, Prod.mk.injEq] at stepped
    obtain ⟨_, _, same, rfl⟩ := stepped
    exact .leaveGroup left same.symm
  | search str context group guid iv =>
    simp only [step, search, Runs.bind_ok, Runs.pure_ok, Prod.mk.injEq] at stepped
    obtain ⟨_, _, text, _, rfl, rfl⟩ := stepped
    exact .search str context group guid iv text
  | searchStop context =>
    cases stepped
    exact .searchStop context
  | addShared path ext group files =>
    cases stepped
    exact .addShared path ext group files
  | updateShared shared ext group files =>
    cases stepped
    exact .updateShared shared ext group files
  | removeShared shared files =>
    cases stepped
    exact .removeShared shared files
  | response resp => exact .response stepped
  | request rqst answering =>
    simp only [step, Runs.bind_ok, Runs.pure_ok, Prod.mk.injEq] at stepped
    obtain ⟨resp, _, rfl, rfl⟩ := stepped
    exact .request rqst answering resp
  | fetched ref data => exact .fetched stepped

theorem step_trut (property : Trut → Prop) {op : Op}
    (stepped : peer.step ulong evp op = .ok (next, outputs)) (holds : property peer.trut)
    (joinGroup : ∀ name accept, property (peer.trut.joinGroup name accept))
    (joinCreate : ∀ ref key, property (peer.trut.joinCreate ulong ref key))
    (leaveGroup : ∀ ref, op = .leaveGroup ref → property { peer.trut with
      groups := peer.trut.groups.filter fun group => group.ref ≠ ref })
    (rescan : ∀ dirs files, property { peer.trut with
      collect := { peer.trut.collect with dirs := dirs }.rescan ulong files })
    (findKey : ∀ {trut : Trut} ref name, property trut → property (trut.findKey ref name))
    (fetchKey : ∀ {ref bytes size trut}, op = .fetched ref (some (bytes, size)) →
      ref ∈ peer.fetching → peer.trut.fetchKey ulong ref bytes size = some trut → property trut) :
    property next.trut := by
  cases step_cases stepped with
  | joinGroup name join accept guid =>
    rw [joinGroup_trut]
    exact joinGroup name accept
  | wake woken =>
    rcases wake_cases woken with ⟨rfl, _⟩ | ⟨group, _, _, woken⟩
    · exact holds
    · split at woken
      next => exact woken.1 ▸ holds
      next => exact woken.1 ▸ joinCreate _ _
  | leaveGroup _ same => exact same ▸ leaveGroup _ rfl
  | search | searchStop | request => exact holds
  | addShared path ext group files => exact rescan _ files
  | updateShared shared ext group files =>
    simp only [updateShared]
    split
    next => exact holds
    next => exact rescan _ files
  | removeShared shared files =>
    simp only [removeShared]
    split
    next => exact holds
    next => exact rescan _ files
  | response handled =>
    exact (response_invariant (fun later => property later.trut)
      (fun ref name holds => findKey ref name holds) handled holds).1
  | fetched fetched =>
    rcases fetchKey_cases fetched with ⟨rfl, _⟩ | ⟨_, rfl, _⟩ |
      ⟨bytes, size, trut, rfl, pending, installed, rfl, _⟩
    · exact holds
    · exact holds
    · exact fetchKey rfl pending installed

end

abbrev Turn := Runs.Turn Peer Op Output

abbrev Run : Peer → List Turn → Peer → Prop := Runs.Run (step ulong evp)

def joining (name : CString) : Op := .joinGroup name true none (List.replicate 16 0)

def club : CString := ⟨ascii "club", by decide⟩

def joinedOnce : Peer := (start.joinGroup club true none (List.replicate 16 0)).1

end Peer
